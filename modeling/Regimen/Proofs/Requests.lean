import Regimen.Proofs.Run
import Regimen.Proofs.WellFormed

/-!
# What updates ask for

An update is asked for a number of records: so many in all, and so many in each of its rounds. **No
update asks for more than memory holds** (`covered_of_update`): a round learns from some records, from
no more than the batch, which is no more than the agent waits for, and so much is buffered when the
runtime is called.

Where the agent comes from a document, this needs nothing of the fleet. Whatever the learners have
observed before, an update is asked for only in the phase for it, and in that phase the threshold is
reached.
-/

namespace Regimen

namespace Cadence

variable {c : Cadence} {family : Family}

/-- A round learns from some records, and from no more than a whole batch. -/
theorem WellFormed.minibatch_bounds (h : c.WellFormed family) :
    0 < c.minibatch ∧ c.minibatch ≤ c.batch := by
  cases family with
  | targetSync basis =>
    obtain ⟨-, hrounds⟩ := h.suits
    have hall : c.minibatch = c.batch := by simp [minibatch, hrounds]
    rw [hall]
    exact ⟨h.batch_pos, Nat.le_refl _⟩
  | iterative =>
    obtain ⟨-, r, hrounds, -, hpos, hle⟩ := h.suits
    have hsample : c.minibatch = r.sample := by simp [minibatch, hrounds]
    rw [hsample]
    exact ⟨hpos, hle⟩

/-- There is at least one round in an update. -/
theorem WellFormed.roundsPerUpdate_pos (h : c.WellFormed family) : 0 < c.roundsPerUpdate := by
  cases family with
  | targetSync basis =>
    obtain ⟨-, hrounds⟩ := h.suits
    simp [roundsPerUpdate, hrounds]
  | iterative =>
    obtain ⟨-, r, hrounds, hnumber, -⟩ := h.suits
    simpa [roundsPerUpdate, hrounds] using hnumber

end Cadence

namespace Training

/-- **Memory covers a request** of an agent that has so many records buffered. -/
structure Request.Covered (request : Request) (a : Agent) (buffered : Nat) : Prop where
  /-- A round learns from some records. -/
  minibatch_pos : 1 ≤ request.minibatch
  /-- It learns from no more than the batch. -/
  minibatch_le : request.minibatch ≤ request.batch
  /-- The batch is no more than the agent waits for. -/
  batch_le : request.batch ≤ a.cadence.threshold
  /-- So much is buffered. -/
  threshold_le : a.cadence.threshold ≤ buffered
  /-- No more is buffered than there is room for. -/
  buffered_le : buffered ≤ a.memory.capacity
  /-- There is at least one round. -/
  rounds_pos : 1 ≤ request.rounds

/-- In the phase for updates the records that are there cover the request. -/
theorem Plan.covered_request {p : Plan} (hwell : p.agent.WellFormed) {t : Tally} {l : Learner}
    {o : Observation} (hphase : p.phase t l o = .updating) (timeStep : Nat) :
    (p.request timeStep).Covered p.agent (p.buffered (l.taken o)) := by
  obtain ⟨n, -, hdue⟩ := phaseAt_eq_updating_iff.mp hphase
  obtain ⟨hpos, hle⟩ := hwell.cadence.minibatch_bounds
  exact ⟨hpos, hle, hwell.cadence.batch_le_threshold, hdue.2.2.2, p.buffered_le _,
    hwell.cadence.roundsPerUpdate_pos⟩

namespace Fleet

variable {σ : Type}

/-- Only the step of a learner asks for an update. It is for the time step in which the learner has
observed just before, and memory covers it. -/
theorem Happens.covered {p : Plan} {f f' : Fleet σ} {h : Happening} (hh : Happens p f h f')
    (hwell : p.agent.WellFormed) {request : Request} {answer : Except Failure Float}
    (hx : .update request answer ∈ h.exchanges) :
    ∃ worker w o, h.event = .step worker ∧ f.world? worker = some w ∧
      h.seen = [(request.timeStep, o)] ∧
      (∀ n reply, .observe n reply ∈ h.exchanges → n = request.timeStep) ∧
      request.Covered p.agent (p.buffered (w.take o p.counting).learner) := by
  cases hh with
  | missing => cases hx
  | advanced => cases hx
  | ended => cases hx
  | @stepped worker l l' xs r t s hl hsteps =>
    obtain ⟨o, hmem, htally, hphase, rfl⟩ := hsteps.of_update_mem hx
    have hseen : xs.filterMap Exchange.seen? = [(p.nextStep f.tally, o)] := by
      rcases hsteps.seen_cases with ⟨hnil, -⟩ | ⟨o', hone, -⟩
      · rw [hnil] at hmem
        cases hmem
      · rw [hone, List.mem_singleton] at hmem
        rw [hone, hmem]
    refine ⟨worker, ⟨f.tally, l, f.runtime, []⟩, o, rfl, ?_, hseen, ?_, ?_⟩
    · rw [world?, hl, Option.map_some]
    · exact fun n reply hreply => hsteps.of_observe_mem hreply
    · exact p.covered_request hwell hphase _

/-- **No update asks for more than memory holds.** Whatever happens to a fleet that trains an agent
from a document, an update is asked for by a learner that has just observed, in the time step of that
observation, and the records that the learner has buffered by then cover the request. -/
theorem covered_of_update {options : Options} {document : Value} {a : Agent}
    (hdecode : Agent.decode options document = .ok a) (horizon : Nat) (counting : Counting)
    (rt : Runtime σ) (f : Fleet σ) (es : List Event) {i : Nat} {h : Happening}
    (hi : (f.run ⟨a, horizon, counting⟩ rt es).1[i]? = some h) {request : Request}
    {answer : Except Failure Float} (hx : .update request answer ∈ h.exchanges) :
    ∃ worker w o, h.event = .step worker ∧
      (f.run ⟨a, horizon, counting⟩ rt (es.take i)).2.world? worker = some w ∧
      h.seen = [(request.timeStep, o)] ∧
      (∀ n reply, .observe n reply ∈ h.exchanges → n = request.timeStep) ∧
      request.Covered a (Plan.buffered ⟨a, horizon, counting⟩ (w.take o counting).learner) := by
  obtain ⟨_, _, -, hparts⟩ := Agent.parts_of_decode hdecode
  exact (happens_of_getElem? hi).covered hparts.wellFormed hx

set_option maxRecDepth 4000 in
/-- Two learners take turns. Both have observed six records when the second one is asked to update. -/
theorem covered_of_update_cartpole :
    let es : List Event := (List.replicate 6 [.step 0, .step 1]).flatten
    ∃ a, Agent.decode .standard (Agent.cartpole 16) = .ok a ∧
      ∃ h, ((Fleet.start .zero 2 ()).run ⟨a, 100, .around⟩ (Runtime.steady ⟨1, false⟩) es).1[11]? = some h ∧
        ∃ request answer, .update request answer ∈ h.exchanges ∧
          ∃ worker w o, h.event = .step worker ∧
            ((Fleet.start .zero 2 ()).run ⟨a, 100, .around⟩ (Runtime.steady ⟨1, false⟩)
              (es.take 11)).2.world? worker = some w ∧
            h.seen = [(request.timeStep, o)] ∧
            (∀ n reply, .observe n reply ∈ h.exchanges → n = request.timeStep) ∧
            request.Covered a (Plan.buffered ⟨a, 100, .around⟩ (w.take o .around).learner) := by
  intro es
  obtain ⟨a, ha, h, hi, request, answer, hx⟩ :
      ∃ a, Agent.decode .standard (Agent.cartpole 16) = .ok a ∧
        ∃ h, ((Fleet.start .zero 2 ()).run ⟨a, 100, .around⟩ (Runtime.steady ⟨1, false⟩) es).1[11]? = some h ∧
          ∃ request answer, .update request answer ∈ h.exchanges :=
    ⟨_, rfl, _, rfl, _, _, List.mem_cons_of_mem _ List.mem_cons_self⟩
  exact ⟨a, ha, h, hi, request, answer, hx, covered_of_update ha 100 .around _ _ es hi hx⟩

end Fleet

end Training

end Regimen
