/-!
# Attempts

Reading a section and taking a step of training are both computations on a state that may fail, and
what they have done to the state by then stays done. `EStateM` has that meaning; this module adds how
its computations begin from an outcome that is given (`Attempt.ofExcept`) and what is left of them
when the state is of no interest (`Attempt.outcome`).
-/

namespace Regimen

/-- A computation on a state of type `σ`, which may fail with an `ε`; the state is kept either way. -/
abbrev Attempt (ε σ α : Type) := EStateM ε σ α

namespace Attempt

variable {ε σ α : Type}

/-- The computation with a given outcome, which leaves the state alone. -/
def ofExcept (outcome : Except ε α) : Attempt ε σ α := fun s =>
  match outcome with
  | .ok a => .ok a s
  | .error e => .error e s

/-- The outcome of a computation. -/
def outcome (x : Attempt ε σ α) (s : σ) : Except ε α :=
  match x.run s with
  | .ok a _ => .ok a
  | .error e _ => .error e

/-- The state that a computation leaves behind, whether it fails or not. -/
def after (x : Attempt ε σ α) (s : σ) : σ :=
  match x.run s with
  | .ok _ t => t
  | .error _ t => t

@[simp] theorem run_ofExcept_ok (a : α) (s : σ) :
    (ofExcept (.ok a) : Attempt ε σ α).run s = .ok a s := rfl

@[simp] theorem run_ofExcept_error (e : ε) (s : σ) :
    (ofExcept (.error e) : Attempt ε σ α).run s = .error e s := rfl

@[simp] theorem after_ofExcept (outcome : Except ε α) (s : σ) :
    after (ofExcept outcome : Attempt ε σ α) s = s := by
  cases outcome <;> rfl

@[simp] theorem outcome_ofExcept (r : Except ε α) (s : σ) :
    (ofExcept r : Attempt ε σ α).outcome s = r := by
  cases r <;> rfl

@[simp] theorem outcome_pure (a : α) (s : σ) : (pure a : Attempt ε σ α).outcome s = .ok a := rfl

@[simp] theorem after_pure (a : α) (s : σ) : (pure a : Attempt ε σ α).after s = s := rfl

/-! What is left of a sequence: its second part begins where the first one has ended, unless that one
has failed. -/

section Bind

variable {β : Type} {x : Attempt ε σ α} {f : α → Attempt ε σ β} {s : σ} {a : α} {e : ε}

theorem outcome_bind :
    (x >>= f).outcome s = x.outcome s >>= fun a => (f a).outcome (x.after s) := by
  unfold outcome after
  rw [EStateM.run_bind]
  cases x.run s <;> rfl

theorem after_bind : (x >>= f).after s =
    match x.outcome s with
    | .ok a => (f a).after (x.after s)
    | .error _ => x.after s := by
  unfold outcome after
  rw [EStateM.run_bind]
  cases x.run s <;> rfl

theorem outcome_bind_of_ok (h : x.outcome s = .ok a) : (x >>= f).outcome s = (f a).outcome (x.after s) := by
  rw [outcome_bind, h]
  rfl

theorem after_bind_of_ok (h : x.outcome s = .ok a) : (x >>= f).after s = (f a).after (x.after s) := by
  rw [after_bind, h]

theorem outcome_bind_of_error (h : x.outcome s = .error e) : (x >>= f).outcome s = .error e := by
  rw [outcome_bind, h]
  rfl

theorem after_bind_of_error (h : x.outcome s = .error e) : (x >>= f).after s = x.after s := by
  rw [after_bind, h]

/-- Sequences come to the same if their first parts do, and their second parts where those have ended. -/
theorem run_bind_congr {y : Attempt ε σ α} {g : α → Attempt ε σ β} (hx : x.run s = y.run s)
    (hf : ∀ a, x.outcome s = .ok a → (f a).run (x.after s) = (g a).run (x.after s)) :
    (x >>= f).run s = (y >>= g).run s := by
  unfold outcome after at hf
  rw [EStateM.run_bind, EStateM.run_bind, ← hx]
  cases hrun : x.run s with
  | ok a t =>
    rw [hrun] at hf
    exact hf a rfl
  | error e t => rfl

end Bind

end Attempt

end Regimen
