import Mathlib.Data.List.Forall2
import Regimen.Proofs.TargetSync

/-!
# Learners that cannot be told apart

What a learner remembers is how many records it has observed, and what it has counted. Once enough
records are buffered, more of them make no difference to where the agent stands; and the counts of a
learner decide about nothing but a target network that follows updates. So a learner without such a
network has no timer but the tally: **two learners with the same tally and enough records do the same
from there on** (`sameButBuffered_run`), whatever they have been through, when the runtime answers them
the same, its failures included. All that their reports can differ in is the number of buffered
records.

The two runs go side by side. `Act.Agrees` compares two acts, with one rule for each way to put acts
together; what it keeps is that the worlds are alike (`World.Alike`).
-/

namespace Regimen.Training

/-! ### What is compared -/

/-- Two outcomes are the same failure, or results that are related. -/
inductive Outcomes {α β : Type} (Q : α → β → Prop) : Except Failure α → Except Failure β → Prop where
  /-- The same failure. -/
  | error (e : Failure) : Outcomes Q (.error e) (.error e)
  /-- Related results. -/
  | ok {a : α} {b : β} : Q a b → Outcomes Q (.ok a) (.ok b)

/-- Outcomes that are the same have the same results. -/
theorem Outcomes.refl {α : Type} (r : Except Failure α) : Outcomes Eq r r := by
  cases r with
  | error e => exact .error e
  | ok a => exact .ok rfl

/-- Two reports are the same, but for the number of buffered records. -/
def Report.SameButBuffered (r₁ r₂ : Report) : Prop := { r₁ with buffered := r₂.buffered } = r₂

/-- **The same happens**: the runtime is asked for the same and answers the same, the tally is the same
afterwards, and so is the outcome, but for the number of buffered records in a report. -/
structure Happening.SameButBuffered (h₁ h₂ : Happening) : Prop where
  /-- The event. -/
  event : h₁.event = h₂.event
  /-- What the runtime was asked for and answered. -/
  exchanges : h₁.exchanges = h₂.exchanges
  /-- The tally. -/
  tally : h₁.tally = h₂.tally
  /-- The outcome of a step. -/
  outcome : Option.Rel (Outcomes Report.SameButBuffered) h₁.outcome h₂.outcome

/-- Two runtimes answer the same, from states that are related and stay so. -/
structure Runtime.AnswersLike {σ τ : Type} (R : σ → τ → Prop) (rt₁ : Runtime σ) (rt₂ : Runtime τ) :
    Prop where
  /-- To an observation. -/
  observe : ∀ n s t, R s t →
    (rt₁.observe n s).1 = (rt₂.observe n t).1 ∧ R (rt₁.observe n s).2 (rt₂.observe n t).2
  /-- To an update. -/
  update : ∀ request s t, R s t → (rt₁.update request s).1 = (rt₂.update request t).1 ∧
    R (rt₁.update request s).2 (rt₂.update request t).2
  /-- To the target network. -/
  sync : ∀ n s t, R s t →
    (rt₁.sync n s).1 = (rt₂.sync n t).1 ∧ R (rt₁.sync n s).2 (rt₂.sync n t).2

/-- A runtime answers like itself. -/
theorem Runtime.answersLike_refl {σ : Type} (rt : Runtime σ) : rt.AnswersLike Eq rt := by
  constructor
  · rintro n s _ rfl
    exact ⟨rfl, rfl⟩
  · rintro request s _ rfl
    exact ⟨rfl, rfl⟩
  · rintro n s _ rfl
    exact ⟨rfl, rfl⟩

/-! ### Enough is buffered -/

section

variable {p : Plan} {l : Learner}

/-- **Enough is buffered** for updates. -/
def Plan.Stocked (p : Plan) (l : Learner) : Prop := p.agent.cadence.threshold ≤ p.buffered l

/-- Observing does not take records away. -/
theorem Plan.Stocked.taken (h : p.Stocked l) (hcapacity : p.agent.memory.capacity ≤ maxCount)
    (o : Observation) : p.Stocked (l.taken o) := by
  unfold Stocked Plan.buffered Memory.held at *
  rw [l.observed_taken]
  omega

/-- Where enough is buffered it makes no difference how much that is. -/
theorem phaseAt_eq_of_le {c : Cadence} {buffered buffered' : Nat} (h : c.threshold ≤ buffered)
    (h' : c.threshold ≤ buffered') (count : Option Nat) :
    phaseAt c count buffered = phaseAt c count buffered' := by
  cases count with
  | none => simp only [phaseAt, if_neg (Nat.not_lt_of_le h), if_neg (Nat.not_lt_of_le h')]
  | some n =>
    simp only [phaseAt, Cadence.phase, if_neg (Nat.not_lt_of_le h), if_neg (Nat.not_lt_of_le h'),
      Cadence.UpdateDue, h, h']

/-- The count of updates matters only where it is what the target network follows. -/
theorem syncCounts_eq {basis : Option Cadence.Basis} (h : basis ≠ some .updates) (count : Option Nat)
    (loss : Option Float) (updates updates' : Nat) :
    syncCounts basis count loss updates = syncCounts basis count loss updates' := by
  rcases basis with _ | _ | _
  · rfl
  · rfl
  · exact absurd rfl h

end

/-! ### Acts side by side -/

section

variable {σ τ α β γ δ : Type}

/-- **Two worlds are alike**: the tallies are the same, the same was asked for, the runtimes are in
states that are related, and enough is buffered in both. -/
structure World.Alike (p : Plan) (R : σ → τ → Prop) (w : World σ) (v : World τ) : Prop where
  /-- The tallies. -/
  tally : w.tally = v.tally
  /-- What was asked for. -/
  trace : w.trace = v.trace
  /-- The states of the runtimes. -/
  runtime : R w.runtime v.runtime
  /-- One learner has enough. -/
  left : p.Stocked w.learner
  /-- So has the other one. -/
  right : p.Stocked v.learner

/-- **Two acts agree**: from worlds that are alike they come to worlds that are alike, with the same
failure or with results that are related. -/
def Act.Agrees (p : Plan) (R : σ → τ → Prop) (Q : α → β → Prop) (x : Act σ α) (y : Act τ β) : Prop :=
  ∀ w v, World.Alike p R w v →
    Outcomes Q (x.outcome w) (y.outcome v) ∧ World.Alike p R (x.after w) (y.after v)

namespace Act.Agrees

variable {p : Plan} {R : σ → τ → Prop} {Q : α → β → Prop} {Q' : γ → δ → Prop}

theorem pure {a : α} {b : β} (h : Q a b) : Agrees p R Q (pure a) (pure b) :=
  fun _ _ hwv => ⟨.ok h, hwv⟩

theorem get : Agrees p R (World.Alike p R) (MonadState.get : Act σ (World σ)) MonadState.get :=
  fun _ _ hwv => ⟨.ok hwv, hwv⟩

theorem bind {x : Act σ α} {y : Act τ β} {f : α → Act σ γ} {g : β → Act τ δ} (h : Agrees p R Q x y)
    (hfg : ∀ a b, Q a b → Agrees p R Q' (f a) (g b)) : Agrees p R Q' (x >>= f) (y >>= g) := by
  intro w v hwv
  obtain ⟨houtcomes, hafter⟩ := h w v hwv
  cases hx : x.outcome w with
  | error e =>
    rw [hx] at houtcomes
    generalize hy : y.outcome v = r at houtcomes
    cases houtcomes
    rw [Attempt.outcome_bind_of_error hx, Attempt.outcome_bind_of_error hy,
      Attempt.after_bind_of_error hx, Attempt.after_bind_of_error hy]
    exact ⟨.error e, hafter⟩
  | ok a =>
    rw [hx] at houtcomes
    generalize hy : y.outcome v = r at houtcomes
    cases houtcomes with
    | ok hab =>
      rw [Attempt.outcome_bind_of_ok hx, Attempt.outcome_bind_of_ok hy,
        Attempt.after_bind_of_ok hx, Attempt.after_bind_of_ok hy]
      exact hfg _ _ hab _ _ hafter

/-- What is changed keeps worlds alike. -/
theorem modify {f : World σ → World σ} {g : World τ → World τ}
    (h : ∀ w v, World.Alike p R w v → World.Alike p R (f w) (g v)) :
    Agrees p R Eq (modify f : Act σ Unit) (modify g) :=
  fun w v hwv => ⟨.ok rfl, h w v hwv⟩

theorem exchange (record : Except Failure α → Exchange) {ask : σ → Except Failure α × σ}
    {ask' : τ → Except Failure α × τ}
    (h : ∀ s t, R s t → (ask s).1 = (ask' t).1 ∧ R (ask s).2 (ask' t).2) :
    Agrees p R Eq (Act.exchange record ask) (Act.exchange record ask') := by
  intro w v hwv
  obtain ⟨hanswer, hnext⟩ := h _ _ hwv.runtime
  rw [outcome_exchange, outcome_exchange, after_exchange, after_exchange, hanswer]
  refine ⟨.refl _, hwv.tally, ?_, hnext, hwv.left, hwv.right⟩
  show _ :: w.trace = _ :: v.trace
  rw [hwv.trace]

end Act.Agrees

end

/-! ### The parts of a step -/

section

variable {σ τ : Type} {p : Plan} {R : σ → τ → Prop} {rt₁ : Runtime σ} {rt₂ : Runtime τ}

theorem agrees_observe (hcapacity : p.agent.memory.capacity ≤ maxCount)
    (h : Runtime.AnswersLike R rt₁ rt₂) :
    Act.Agrees p R Eq (observe p rt₁) (observe p rt₂) := by
  refine .bind .get fun w v hwv => ?_
  rw [hwv.tally]
  refine .bind (.exchange _ (h.observe _)) ?_
  rintro o _ rfl
  refine .bind (.modify fun w v hwv => ?_) fun _ _ _ => .pure rfl
  refine ⟨?_, hwv.trace, hwv.runtime, hwv.left.taken hcapacity o, hwv.right.taken hcapacity o⟩
  simp only [World.take, hwv.tally]

theorem agrees_update (h : Runtime.AnswersLike R rt₁ rt₂) (phase : Cadence.Phase) :
    Act.Agrees p R Eq (update p rt₁ phase) (update p rt₂ phase) := by
  by_cases hphase : phase = .updating
  · unfold update
    rw [if_pos hphase, if_pos hphase]
    refine .bind .get fun w v hwv => ?_
    rw [hwv.tally]
    refine .bind (.exchange _ (h.update _)) ?_
    rintro loss _ rfl
    refine .bind (.modify fun w v hwv => ?_) fun _ _ _ => .pure rfl
    exact ⟨hwv.tally, hwv.trace, hwv.runtime, hwv.left, hwv.right⟩
  · unfold update
    rw [if_neg hphase, if_neg hphase]
    exact .pure rfl

theorem agrees_sync (h : Runtime.AnswersLike R rt₁ rt₂) (counts : Option (Nat × Nat)) :
    Act.Agrees p R Eq (sync p rt₁ counts) (sync p rt₂ counts) := by
  rcases counts with _ | ⟨decided, told⟩
  · exact .pure rfl
  · by_cases hdue : p.agent.cadence.SyncDue decided
    · unfold sync
      simp only [if_pos hdue]
      refine .bind (.exchange _ (h.sync _)) fun _ _ _ => ?_
      refine .bind (.modify fun w v hwv => ?_) fun _ _ _ => .pure rfl
      exact ⟨hwv.tally, hwv.trace, hwv.runtime, hwv.left, hwv.right⟩
    · unfold sync
      simp only [if_neg hdue]
      exact .pure rfl

/-- **A step does the same** in worlds that are alike, when the target network does not follow
updates. -/
theorem agrees_step (hcapacity : p.agent.memory.capacity ≤ maxCount)
    (hbasis : p.agent.cadence.basis ≠ some .updates) (h : Runtime.AnswersLike R rt₁ rt₂) :
    Act.Agrees p R Report.SameButBuffered (step p rt₁) (step p rt₂) := by
  refine .bind (agrees_observe hcapacity h) ?_
  rintro o _ rfl
  refine .bind .get fun w v hwv => ?_
  have hphase := phaseAt_eq_of_le hwv.left hwv.right
    (decisionCount p.agent.cadence.measure v.tally o)
  have hcounts (loss : Option Float) := syncCounts_eq hbasis
    (decisionCount p.agent.cadence.measure v.tally o) loss w.learner.stats.updates
    v.learner.stats.updates
  simp only [hwv.tally, hphase, hcounts]
  refine .bind (agrees_update h _) ?_
  rintro loss _ rfl
  refine .bind (agrees_sync h _) ?_
  rintro synced _ rfl
  exact .pure rfl

end

/-! ### Fleets side by side -/

namespace Fleet

variable {σ τ : Type} {p : Plan} {R : σ → τ → Prop} {rt₁ : Runtime σ} {rt₂ : Runtime τ}
  {f₁ : Fleet σ} {f₂ : Fleet τ} {active : Nat → Prop} {e : Event}

/-- Every learner that is active has enough buffered. -/
def Stocked (p : Plan) (active : Nat → Prop) (f : Fleet σ) : Prop :=
  ∀ worker, active worker → ∃ l, f.learners[worker]? = some l ∧ p.Stocked l

/-- **Two fleets are alike**: the tallies are the same, the runtimes are in states that are related, and
the learners that are active have enough buffered in both. -/
structure Alike (p : Plan) (R : σ → τ → Prop) (active : Nat → Prop) (f₁ : Fleet σ) (f₂ : Fleet τ) :
    Prop where
  /-- The tallies. -/
  tally : f₁.tally = f₂.tally
  /-- The states of the runtimes. -/
  runtime : R f₁.runtime f₂.runtime
  /-- The learners of one fleet. -/
  left : f₁.Stocked p active
  /-- Those of the other one. -/
  right : f₂.Stocked p active

/-- Whoever restores a learner with enough keeps the others. -/
theorem Stocked.restore {f : Fleet σ} (h : f.Stocked p active) (worker : Nat) {w : World σ}
    (hw : p.Stocked w.learner) : (f.restore worker w).Stocked p active := by
  intro other hother
  obtain ⟨l, hl, hstocked⟩ := h other hother
  by_cases heq : worker = other
  · subst heq
    exact ⟨w.learner, getElem?_set_of_some hl w.learner, hw⟩
  · exact ⟨l, (List.getElem?_set_ne heq).trans hl, hstocked⟩

/-- **The same happens to fleets that are alike**, and they stay so. -/
theorem Alike.happen (hf : Alike p R active f₁ f₂) (hcapacity : p.agent.memory.capacity ≤ maxCount)
    (hbasis : p.agent.cadence.basis ≠ some .updates) (h : Runtime.AnswersLike R rt₁ rt₂)
    (hactive : ∀ worker, e = .step worker → active worker) :
    (f₁.happen p rt₁ e).1.SameButBuffered (f₂.happen p rt₂ e).1 ∧
      Alike p R active (f₁.happen p rt₁ e).2 (f₂.happen p rt₂ e).2 := by
  cases e with
  | advance n =>
    have htally : f₁.tally.advance n p.counting = f₂.tally.advance n p.counting :=
      congrArg (·.advance n p.counting) hf.tally
    exact ⟨⟨rfl, rfl, htally, .none⟩, htally, hf.runtime, hf.left, hf.right⟩
  | endEpisode =>
    have htally : f₁.tally.endEpisode p.counting = f₂.tally.endEpisode p.counting :=
      congrArg (·.endEpisode p.counting) hf.tally
    exact ⟨⟨rfl, rfl, htally, .none⟩, htally, hf.runtime, hf.left, hf.right⟩
  | step worker =>
    obtain ⟨l, hl, hstocked⟩ := hf.left worker (hactive worker rfl)
    obtain ⟨m, hm, hstocked'⟩ := hf.right worker (hactive worker rfl)
    obtain ⟨houtcome, hafter⟩ := agrees_step hcapacity hbasis h ⟨f₁.tally, l, f₁.runtime, []⟩
      ⟨f₂.tally, m, f₂.runtime, []⟩ ⟨hf.tally, rfl, hf.runtime, hstocked, hstocked'⟩
    rw [happen_step_of_some p rt₁ hl, happen_step_of_some p rt₂ hm]
    constructor
    · exact ⟨rfl, congrArg List.reverse hafter.trace, hafter.tally, .some houtcome⟩
    · exact ⟨hafter.tally, hafter.runtime, hf.left.restore worker hafter.left,
        hf.right.restore worker hafter.right⟩

theorem Alike.run (hf : Alike p R active f₁ f₂) (hcapacity : p.agent.memory.capacity ≤ maxCount)
    (hbasis : p.agent.cadence.basis ≠ some .updates) (h : Runtime.AnswersLike R rt₁ rt₂)
    {es : List Event} (hactive : ∀ worker, .step worker ∈ es → active worker) :
    List.Forall₂ Happening.SameButBuffered (f₁.run p rt₁ es).1 (f₂.run p rt₂ es).1 := by
  induction es generalizing f₁ f₂ with
  | nil => exact .nil
  | cons e es ih =>
    obtain ⟨hsame, hf'⟩ := hf.happen hcapacity hbasis h (e := e) fun worker heq =>
      hactive worker (heq ▸ List.mem_cons_self)
    exact .cons hsame (ih hf' fun worker hmem => hactive worker (List.mem_cons_of_mem _ hmem))

/-- **Nobody can tell the learners apart.** Two fleets whose tallies are the same, and in which every
learner that takes a step has enough buffered, are put through the same events with runtimes that
answer the same: they ask for the same, fail in the same way and give the same reports, but for the
number of buffered records. This is so whatever the learners have counted, as long as there is no
target network that follows updates, and the capacity of memory can be counted. -/
theorem sameButBuffered_run (hcapacity : p.agent.memory.capacity ≤ maxCount)
    (hbasis : p.agent.cadence.basis ≠ some .updates) (h : Runtime.AnswersLike R rt₁ rt₂)
    (htally : f₁.tally = f₂.tally) (hruntime : R f₁.runtime f₂.runtime) (es : List Event)
    (hleft : f₁.Stocked p (.step · ∈ es)) (hright : f₂.Stocked p (.step · ∈ es)) :
    List.Forall₂ Happening.SameButBuffered (f₁.run p rt₁ es).1 (f₂.run p rt₂ es).1 :=
  Alike.run ⟨htally, hruntime, hleft, hright⟩ hcapacity hbasis h fun _ hmem => hmem

end Fleet

/-- One learner comes from three steps that went well, and the other one is resumed in their place with
a full memory. In their next 8 steps an update fails and another one succeeds. -/
theorem sameButBuffered_run_cartpole :
    ∃ a, Agent.decode .standard (Agent.cartpole 16) = .ok a ∧ a.cadence.basis = some .steps ∧
      ∃ f₁ f₂ : Fleet Unit,
        f₁ = ((Fleet.start ⟨5, 0⟩ 1 ()).run ⟨a, 100, .around⟩ (.steady ⟨3, false⟩)
          [.step 0, .step 0, .step 0]).2 ∧
        f₁.learners = [⟨9, ⟨3, 1, 1, some 0.5⟩⟩] ∧ f₂ = ⟨⟨8, 0⟩, [⟨50, ⟨1, 0, 0, none⟩⟩], ()⟩ ∧
        List.Forall₂ Happening.SameButBuffered
          (f₁.run ⟨a, 100, .around⟩ (.warmingUp 12) (List.replicate 8 (.step 0))).1
          (f₂.run ⟨a, 100, .around⟩ (.warmingUp 12) (List.replicate 8 (.step 0))).1 := by
  obtain ⟨a, ha, hmemory, hbasis, hthreshold, htally, hlearners⟩ : ∃ a,
      Agent.decode .standard (Agent.cartpole 16) = .ok a ∧ a.memory.capacity = 16 ∧
      a.cadence.basis = some .steps ∧ a.cadence.threshold = 6 ∧
      ((Fleet.start ⟨5, 0⟩ 1 ()).run ⟨a, 100, .around⟩ (.steady ⟨3, false⟩)
        [.step 0, .step 0, .step 0]).2.tally = ⟨8, 0⟩ ∧
      ((Fleet.start ⟨5, 0⟩ 1 ()).run ⟨a, 100, .around⟩ (.steady ⟨3, false⟩)
        [.step 0, .step 0, .step 0]).2.learners = [⟨9, ⟨3, 1, 1, some 0.5⟩⟩] :=
    ⟨_, rfl, rfl, rfl, rfl, rfl, rfl⟩
  have hcapacity : a.memory.capacity ≤ maxCount := by
    rw [hmemory]
    decide
  have hnot : a.cadence.basis ≠ some .updates := by
    rw [hbasis]
    decide
  have hstocked (observed : Nat) (stats : Stats) (h : 6 ≤ observed) :
      Plan.Stocked ⟨a, 100, .around⟩ ⟨observed, stats⟩ := by
    show a.cadence.threshold ≤ min observed a.memory.capacity
    rw [hthreshold, hmemory]
    omega
  refine ⟨a, ha, hbasis, _, _, rfl, hlearners, rfl, ?_⟩
  apply Fleet.sameButBuffered_run hcapacity hnot (Runtime.answersLike_refl _) htally
  · exact Subsingleton.elim _ _
  · intro worker hmem
    obtain rfl : worker = 0 := Event.step.inj (List.eq_of_mem_replicate hmem)
    rw [hlearners]
    exact ⟨_, rfl, hstocked 9 _ (by decide)⟩
  · intro worker hmem
    obtain rfl : worker = 0 := Event.step.inj (List.eq_of_mem_replicate hmem)
    exact ⟨_, rfl, hstocked 50 _ (by decide)⟩

end Regimen.Training
