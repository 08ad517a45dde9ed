import Regimen.Settings.Cadence
import Regimen.Settings.Execution
import Regimen.Settings.Exploration
import Regimen.Settings.Memory
import Regimen.Settings.Network
import Regimen.Settings.Optimizer

/-!
# Agents

An agent is what a whole document describes: a memory, a network with its optimizer, where it runs,
when it learns, and settings of its own type. Two types learn the values of actions, and the third
learns a policy.
-/

namespace Regimen

/-- The type of an agent. -/
inductive Agent.Kind where
  /-- It learns values towards a target network that follows the steps. -/
  | dqn
  /-- It learns values from priorities, towards a target network that follows the updates. -/
  | apex
  /-- It learns a policy in rounds over a batch. -/
  | ppo
  deriving DecidableEq, Repr

namespace Agent.Kind

/-- The type that a name stands for. -/
def ofName? : String → Option Kind
  | "dqn" | "dqn_agent" => some dqn
  | "apex" | "apex_agent" => some apex
  | "ppo" | "ppo_agent" => some ppo
  | _ => none

/-- The name of a type. -/
def name : Kind → String
  | dqn => "dqn"
  | apex => "apex"
  | ppo => "ppo"

/-- The fields of agents that learn values. -/
def valueFields : List String :=
  ["dueling_q", "double_q", "huber_loss", "n_step", "exploration_spec"]

/-- The fields of agents that learn a policy. -/
def policyFields : List String :=
  ["clip_ratio", "gae_lambda", "weight_entropy", "standardize_advantages", "sample_episodes",
    "value_function_spec", "value_function_optimizer_spec"]

/-- The fields that a type has to itself. -/
def ownFields : Kind → List String
  | dqn | apex => valueFields
  | ppo => policyFields

/-- The fields that only other types have. -/
def foreignFields : Kind → List String
  | dqn | apex => policyFields
  | ppo => valueFields

/-- How the type learns. -/
def family : Kind → Cadence.Family
  | dqn => .targetSync .steps
  | apex => .targetSync .updates
  | ppo => .iterative

/-- What a reward is worth one step later, unless the document says so. -/
def defaultDiscount : Kind → Float := fun _ => 0.98

end Agent.Kind

/-- The settings of an agent that learns values. -/
structure Agent.ValueSettings where
  /-- Values are split into those of the state and those of the actions. -/
  dueling : Bool
  /-- Actions are chosen by one network and valued by another. -/
  double : Bool
  /-- Great errors count linearly. -/
  huber : Bool
  /-- The number of rewards that a value is learned from. -/
  steps : Nat
  /-- How the agent explores. -/
  exploration : Option Exploration
  deriving DecidableEq

/-- The settings of an agent that learns a policy. -/
structure Agent.PolicySettings where
  /-- How far an update may move the policy. -/
  clipRatio : Schedule
  /-- How far advantages look ahead. -/
  gaeLambda : Float
  /-- The weight of the policy's entropy. -/
  entropyWeight : Option Schedule
  /-- Advantages are brought to a common scale. -/
  standardize : Bool
  /-- Whole episodes are sampled. -/
  wholeEpisodes : Bool
  /-- The network that values states. -/
  valueNetwork : Option Network
  /-- The optimizer of that network. -/
  valueOptimizer : Option Optimizer

/-- The settings of an agent's own type. -/
inductive Agent.Variant where
  /-- It learns values. -/
  | dqn (settings : Agent.ValueSettings)
  /-- It learns values from priorities. -/
  | apex (settings : Agent.ValueSettings)
  /-- It learns a policy. -/
  | ppo (settings : Agent.PolicySettings)

/-- The type of the agent. -/
def Agent.Variant.kind : Agent.Variant → Agent.Kind
  | dqn _ => .dqn
  | apex _ => .apex
  | ppo _ => .ppo

/-- Settings that do not go together and are accepted all the same. -/
structure Warning where
  /-- Where they stand. -/
  path : Path
  /-- Why they do not go together. -/
  inconsistency : Inconsistency
  deriving DecidableEq

/-- What a whole document describes. -/
structure Agent where
  /-- The settings of the agent's own type. -/
  variant : Agent.Variant
  /-- What a reward is worth one step later. -/
  discount : Float
  /-- The memory. -/
  memory : Memory
  /-- What observations go through. -/
  preprocessing : List Preprocessor
  /-- The network. -/
  network : Network
  /-- The optimizer of the network. -/
  optimizer : Optimizer
  /-- Where and how training runs. -/
  execution : Execution
  /-- When the agent learns. -/
  cadence : Cadence
  /-- What does not go together. -/
  warnings : List Warning

namespace Agent

/-- The type of the agent. -/
def kind (a : Agent) : Kind := a.variant.kind

/-- The settings of an agent that learns values. -/
def valueSettings? (a : Agent) : Option ValueSettings :=
  match a.variant with
  | .dqn settings | .apex settings => some settings
  | .ppo _ => none

/-- The settings of an agent that learns a policy. -/
def policySettings? (a : Agent) : Option PolicySettings :=
  match a.variant with
  | .ppo settings => some settings
  | _ => none

/-- The learning rate after `step` of `total` steps of training. -/
def learningRateAt (a : Agent) (step total : Nat) : Float :=
  a.optimizer.learningRate.valueAt step total

end Agent

end Regimen
