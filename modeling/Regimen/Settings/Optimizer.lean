import Regimen.Schedule.Decoding

/-!
# Optimizers

How the weights of a network follow from what is learned: a method, a learning rate that is always
positive, and perhaps a bound on the length of the gradient.
-/

namespace Regimen

/-- A method of descent. -/
inductive Optimizer.Method where
  /-- Adaptive moments. -/
  | adam
  /-- Plain gradient descent. -/
  | sgd
  /-- Gradients divided by their recent mean size. -/
  | rmsProp
  /-- Gradients divided by their summed size. -/
  | adagrad
  /-- Steps scaled by recent steps. -/
  | adadelta
  deriving DecidableEq, Repr

/-- How the weights of a network are moved. -/
structure Optimizer where
  /-- The method. -/
  method : Optimizer.Method
  /-- The length of a step along the gradient. -/
  learningRate : Schedule
  /-- The greatest length of a gradient. -/
  clipNorm : Option Float
  deriving DecidableEq

namespace Optimizer

/-- The method that a name stands for. -/
def Method.ofName? : String → Option Method
  | "adam" => some adam
  | "sgd" | "gradient_descent" => some sgd
  | "rmsprop" | "rms_prop" | "rms-prop" => some rmsProp
  | "adagrad" => some adagrad
  | "adadelta" => some adadelta
  | _ => none

/-- A method by its name. -/
def Method.decode : Decoder Method := fun path v => do
  let name ← Decoder.text path v
  match ofName? name with
  | some method => return method
  | none => throw (.invalid path (.unsupportedOptimizer name))

/-- The optimizer that a section describes. -/
def reading (policy : UnknownFields) : Reading Optimizer := do
  let method ← Reading.field "type" Method.decode
  let learningRate ← Reading.field "learning_rate" (Schedule.decodeIn .positive)
  let clipNorm ← Reading.field? "clip_grad_norm" (Decoder.numberIn .positive none)
  Reading.close policy
  return { method, learningRate, clipNorm }

end Optimizer

end Regimen
