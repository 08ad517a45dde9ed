import Regimen.Training.Fleet

/-!
# What a step can do

A step observes, updates the agent in the phase for it, and brings the target network up to date
where that is due; the runtime may fail at each of the three. `Steps` lists the ways in which this can
end, with what the runtime was asked for and answered on the way, and what is left of the tally and
of the learner. **Every step is one of these** (`steps_step`), whatever the runtime is and whatever
it answers, and nothing after this module looks into a step again.

The three parts have a relation each, in the order in which they come: an observation that is counted
(`Plan.counted`, `Learner.taken`), an update (`Updates`) and the target network (`Syncs`).
Each part asks the runtime at most once, and counts the answer if it is a good one (`counted_cases`).
-/

namespace Regimen.Training

/-! ### Observations in tallies and learners -/

/-- The tally after a step that observes. -/
def Plan.counted (p : Plan) (t : Tally) (o : Observation) : Tally :=
  let next := t.advance 1 p.counting
  if o.episodeDone then next.endEpisode p.counting else next

@[simp] theorem Plan.timeSteps_counted (p : Plan) (t : Tally) (o : Observation) :
    (p.counted t o).timeSteps = p.nextStep t := by
  unfold counted
  cases o.episodeDone <;> rfl

@[simp] theorem Plan.episodes_counted (p : Plan) (t : Tally) (o : Observation) :
    (p.counted t o).episodes = if o.episodeDone then p.counting.add t.episodes 1 else t.episodes := by
  unfold counted
  cases o.episodeDone <;> rfl

namespace Learner

variable (l : Learner)

/-- The learner after a step that observes. -/
def taken (o : Observation) : Learner :=
  ⟨min (l.observed + o.records) maxCount, { l.stats with steps := l.stats.steps + 1 }⟩

/-- The learner after an update. -/
def updated (loss : Float) : Learner :=
  { l with stats := { l.stats with updates := l.stats.updates + 1, lastLoss := some loss } }

/-- The learner after its target network was brought up to date. -/
def synced : Learner := { l with stats := { l.stats with syncs := l.stats.syncs + 1 } }

@[simp] theorem observed_taken (o : Observation) :
    (l.taken o).observed = min (l.observed + o.records) maxCount := rfl

@[simp] theorem updates_taken (o : Observation) : (l.taken o).stats.updates = l.stats.updates := rfl

@[simp] theorem observed_updated (loss : Float) : (l.updated loss).observed = l.observed := rfl

@[simp] theorem updates_updated (loss : Float) :
    (l.updated loss).stats.updates = l.stats.updates + 1 := rfl

@[simp] theorem observed_synced : l.synced.observed = l.observed := rfl

@[simp] theorem updates_synced : l.synced.stats.updates = l.stats.updates := rfl

end Learner

/-! ### The ways in which the parts of a step can end -/

/-- How a step can end in the phase that it is in after it observed: what it asks for, and the loss
that it goes on with. -/
inductive Updates (p : Plan) (timeStep : Nat) (phase : Cadence.Phase) (l : Learner) :
    List Exchange → Except Failure (Option Float) → Learner → Prop where
  /-- In another phase nothing is asked for. -/
  | skipped : phase ≠ .updating → Updates p timeStep phase l [] (.ok none) l
  /-- The update fails. -/
  | failed (f : Failure) : phase = .updating →
      Updates p timeStep phase l [.update (p.request timeStep) (.error f)] (.error f) l
  /-- The update succeeds. -/
  | done (loss : Float) : phase = .updating →
      Updates p timeStep phase l [.update (p.request timeStep) (.ok loss)] (.ok (some loss))
        (l.updated loss)

/-- How a step can end with the target network: what it asks for, and whether there was something
to do. -/
inductive Syncs (c : Cadence) (counts : Option (Nat × Nat)) (l : Learner) :
    List Exchange → Except Failure Bool → Learner → Prop where
  /-- The network is not due. -/
  | skipped : (∀ decided told, counts = some (decided, told) → ¬ c.SyncDue decided) →
      Syncs c counts l [] (.ok false) l
  /-- It is due, and this fails. -/
  | failed (decided told : Nat) (f : Failure) : counts = some (decided, told) → c.SyncDue decided →
      Syncs c counts l [.sync told (.error f)] (.error f) l
  /-- It is due, and this succeeds. -/
  | done (decided told : Nat) : counts = some (decided, told) → c.SyncDue decided →
      Syncs c counts l [.sync told (.ok ())] (.ok true) l.synced

/-- The number that the intervals go by in a step that observes. -/
def Plan.decision (p : Plan) (t : Tally) (o : Observation) : Option Nat :=
  decisionCount p.agent.cadence.measure (p.counted t o) o

/-- Where the agent stands in a step that observes. -/
def Plan.phase (p : Plan) (t : Tally) (l : Learner) (o : Observation) : Cadence.Phase :=
  phaseAt p.agent.cadence (p.decision t o) (p.buffered (l.taken o))

theorem Plan.buffered_le (p : Plan) (l : Learner) : p.buffered l ≤ p.agent.memory.capacity :=
  Nat.min_le_right _ _

/-- The phase for updates is where a decision is made and an update is due. -/
theorem phaseAt_eq_updating_iff {c : Cadence} {count : Option Nat} {buffered : Nat} :
    phaseAt c count buffered = .updating ↔ ∃ n, count = some n ∧ c.UpdateDue n buffered := by
  cases count with
  | none =>
    unfold phaseAt
    dsimp only
    split <;> simp
  | some n =>
    unfold phaseAt Cadence.phase
    dsimp only
    by_cases hbuffered : buffered < c.threshold
    · rw [if_pos hbuffered]
      have hnot : ¬ c.UpdateDue n buffered := fun hdue => Nat.not_le_of_lt hbuffered hdue.2.2.2
      simp [hnot]
    · rw [if_neg hbuffered]
      by_cases hdue : c.UpdateDue n buffered
      · simp [hdue]
      · simp [hdue]

/-- Until enough is buffered the agent collects, and after that it does not, whether a decision is made
or not. -/
theorem phaseAt_eq_collecting_iff {c : Cadence} {count : Option Nat} {buffered : Nat} :
    phaseAt c count buffered = .collecting ↔ buffered < c.threshold := by
  cases count with
  | none => simp [phaseAt]
  | some n =>
    unfold phaseAt Cadence.phase
    dsimp only
    by_cases hbuffered : buffered < c.threshold
    · simp [hbuffered]
    · rw [if_neg hbuffered]
      by_cases hdue : c.UpdateDue n buffered
      · simp [hdue, hbuffered]
      · simp [hdue, hbuffered]

/-- What a step that observes goes by when it comes to the target network. -/
def Plan.syncCounts (p : Plan) (t : Tally) (l : Learner) (o : Observation) (loss : Option Float) :
    Option (Nat × Nat) :=
  Training.syncCounts p.agent.cadence.basis (p.decision t o) loss l.stats.updates

/-- **What a step can do** that finds a tally and a learner: what it asks for and is answered, its
outcome, and what is left of the two. -/
inductive Steps (p : Plan) (t : Tally) (l : Learner) :
    List Exchange → Except Failure Report → Tally → Learner → Prop where
  /-- Nothing is observed, and nothing has changed. -/
  | unobserved (f : Failure) : Steps p t l [.observe (p.nextStep t) (.error f)] (.error f) t l
  /-- The update fails. -/
  | notUpdated {us : List Exchange} {l₁ : Learner} (o : Observation) (f : Failure) :
      Updates p (p.nextStep t) (p.phase t l o) (l.taken o) us (.error f) l₁ →
      Steps p t l (.observe (p.nextStep t) (.ok o) :: us) (.error f) (p.counted t o) l₁
  /-- The target network cannot be brought up to date. -/
  | notSynced {us ss : List Exchange} {l₁ l₂ : Learner} (o : Observation) (loss : Option Float)
      (f : Failure) :
      Updates p (p.nextStep t) (p.phase t l o) (l.taken o) us (.ok loss) l₁ →
      Syncs p.agent.cadence (p.syncCounts t l o loss) l₁ ss (.error f) l₂ →
      Steps p t l (.observe (p.nextStep t) (.ok o) :: (us ++ ss)) (.error f) (p.counted t o) l₂
  /-- Nothing fails. -/
  | completed {us ss : List Exchange} {l₁ l₂ : Learner} (o : Observation) (loss : Option Float)
      (synced : Bool) :
      Updates p (p.nextStep t) (p.phase t l o) (l.taken o) us (.ok loss) l₁ →
      Syncs p.agent.cadence (p.syncCounts t l o loss) l₁ ss (.ok synced) l₂ →
      Steps p t l (.observe (p.nextStep t) (.ok o) :: (us ++ ss))
        (.ok ⟨p.nextStep t, p.buffered (l.taken o), p.phase t l o, loss, synced⟩)
        (p.counted t o) l₂

/-! ### Every step is one of these -/

section

variable {σ α β : Type} {w w' w'' : World σ}

/-- The world after the runtime has answered. -/
def World.heard (w : World σ) (x : Exchange) (s : σ) : World σ :=
  { w with runtime := s, trace := x :: w.trace }

/-- What was asked for in between two worlds. -/
def World.Adds (w w' : World σ) (xs : List Exchange) : Prop := w'.exchanges = w.exchanges ++ xs

theorem World.adds_nil (w : World σ) : w.Adds w [] := (List.append_nil _).symm

theorem World.adds_heard (w : World σ) (x : Exchange) (s : σ) : w.Adds (w.heard x s) [x] :=
  List.reverse_cons

theorem World.Adds.trans {xs ys : List Exchange} (h : w.Adds w' xs) (h' : w'.Adds w'' ys) :
    w.Adds w'' (xs ++ ys) := by
  rw [Adds, h', h, List.append_assoc]

/-- The runtime is asked, and a good answer is counted. -/
def Act.counted (record : Except Failure α → Exchange) (ask : σ → Except Failure α × σ)
    (count : α → World σ → World σ) (result : α → β) : Act σ β := do
  let a ← Act.exchange record ask
  modify (count a)
  return result a

theorem outcome_exchange (record : Except Failure α → Exchange) (ask : σ → Except Failure α × σ) :
    (Act.exchange record ask).outcome w = (ask w.runtime).1 :=
  Attempt.outcome_ofExcept _ (w.heard (record (ask w.runtime).1) (ask w.runtime).2)

theorem after_exchange (record : Except Failure α → Exchange) (ask : σ → Except Failure α × σ) :
    (Act.exchange record ask).after w =
      w.heard (record (ask w.runtime).1) (ask w.runtime).2 :=
  Attempt.after_ofExcept _ _

/-- The runtime fails and nothing is counted, or it does not and its answer is. -/
theorem counted_cases {x : Act σ β} (record : Except Failure α → Exchange)
    {ask : σ → Except Failure α × σ} (count : α → World σ → World σ) (result : α → β)
    (hx : x.run w = (Act.counted record ask count result).run w) :
    (∃ f s, x.outcome w = .error f ∧ x.after w = w.heard (record (.error f)) s) ∨
    ∃ a s, x.outcome w = .ok (result a) ∧ x.after w = count a (w.heard (record (.ok a)) s) := by
  have hout := outcome_exchange (w := w) record ask
  have hafter := after_exchange (w := w) record ask
  unfold Attempt.outcome Attempt.after
  rw [hx]
  cases hanswer : (ask w.runtime).1 with
  | error f =>
    rw [hanswer] at hout hafter
    refine .inl ⟨f, (ask w.runtime).2, Attempt.outcome_bind_of_error hout, ?_⟩
    rw [← hafter]
    exact Attempt.after_bind_of_error hout
  | ok a =>
    rw [hanswer] at hout hafter
    refine .inr ⟨a, (ask w.runtime).2, Attempt.outcome_bind_of_ok hout, ?_⟩
    rw [← hafter]
    exact Attempt.after_bind_of_ok hout

/-- An observation fails and changes nothing, or it is counted. -/
theorem observe_cases (p : Plan) (rt : Runtime σ) (w : World σ) :
    (∃ f s, (observe p rt).outcome w = .error f ∧
      (observe p rt).after w = w.heard (.observe (p.nextStep w.tally) (.error f)) s) ∨
    ∃ o s, (observe p rt).outcome w = .ok o ∧
      (observe p rt).after w = (w.heard (.observe (p.nextStep w.tally) (.ok o)) s).take o p.counting :=
  counted_cases (.observe (p.nextStep w.tally)) (fun o u => u.take o p.counting) id rfl

theorem updates_update (p : Plan) (rt : Runtime σ) (w : World σ) (phase : Cadence.Phase) :
    ∃ xs, w.Adds ((update p rt phase).after w) xs ∧ ((update p rt phase).after w).tally = w.tally ∧
      Updates p w.tally.timeSteps phase w.learner xs ((update p rt phase).outcome w)
        ((update p rt phase).after w).learner := by
  by_cases hphase : phase = .updating
  · subst hphase
    rcases counted_cases (x := update p rt .updating) (w := w) _ (fun loss u => u.updated loss) some rfl
      with ⟨f, s, hout, hafter⟩ | ⟨loss, s, hout, hafter⟩
    · rw [hout, hafter]
      exact ⟨_, World.adds_heard _ _ s, rfl, .failed f rfl⟩
    · rw [hout, hafter]
      exact ⟨_, World.adds_heard _ _ s, rfl, .done loss rfl⟩
  · rw [update, if_neg hphase]
    exact ⟨[], World.adds_nil _, rfl, .skipped hphase⟩

theorem syncs_sync (p : Plan) (rt : Runtime σ) (w : World σ) (counts : Option (Nat × Nat)) :
    ∃ xs, w.Adds ((sync p rt counts).after w) xs ∧ ((sync p rt counts).after w).tally = w.tally ∧
      Syncs p.agent.cadence counts w.learner xs ((sync p rt counts).outcome w)
        ((sync p rt counts).after w).learner := by
  rcases counts with _ | ⟨decided, told⟩
  · exact ⟨[], World.adds_nil _, rfl, .skipped nofun⟩
  · by_cases hdue : p.agent.cadence.SyncDue decided
    · have hx : sync p rt (some (decided, told)) =
          Act.counted (.sync told) (rt.sync told) (fun _ u => u.synced) fun _ => true := if_pos hdue
      rcases counted_cases (w := w) _ _ _ (congrArg (EStateM.run · w) hx)
        with ⟨f, s, hout, hafter⟩ | ⟨_, s, hout, hafter⟩
      · rw [hout, hafter]
        exact ⟨_, World.adds_heard _ _ s, rfl, .failed decided told f rfl hdue⟩
      · rw [hout, hafter]
        exact ⟨_, World.adds_heard _ _ s, rfl, .done decided told rfl hdue⟩
    · have hx : sync p rt (some (decided, told)) = pure false := if_neg hdue
      rw [hx]
      refine ⟨[], World.adds_nil _, rfl, .skipped ?_⟩
      rintro _ _ ⟨⟩
      exact hdue

/-- What a step does once it has observed. -/
def finish (p : Plan) (rt : Runtime σ) (t : Tally) (l : Learner) (o : Observation) : Act σ Report := do
  let loss ← update p rt (p.phase t l o)
  let synced ← sync p rt (p.syncCounts t l o loss)
  return ⟨(p.counted t o).timeSteps, p.buffered (l.taken o), p.phase t l o, loss, synced⟩

theorem steps_finish (p : Plan) (rt : Runtime σ) {w₁ : World σ} {t : Tally} {l : Learner}
    {o : Observation} (ht : w₁.tally = p.counted t o) (hl : w₁.learner = l.taken o) :
    ∃ xs, w₁.Adds ((finish p rt t l o).after w₁) xs ∧
      Steps p t l (.observe (p.nextStep t) (.ok o) :: xs) ((finish p rt t l o).outcome w₁)
        ((finish p rt t l o).after w₁).tally ((finish p rt t l o).after w₁).learner := by
  obtain ⟨us, hus, htally, hupdates⟩ := updates_update p rt w₁ (p.phase t l o)
  rw [ht, Plan.timeSteps_counted, hl] at hupdates
  unfold finish
  cases hloss : (update p rt (p.phase t l o)).outcome w₁ with
  | error f =>
    rw [Attempt.outcome_bind_of_error hloss, Attempt.after_bind_of_error hloss, htally, ht]
    rw [hloss] at hupdates
    exact ⟨us, hus, .notUpdated o f hupdates⟩
  | ok loss =>
    rw [Attempt.outcome_bind_of_ok hloss, Attempt.after_bind_of_ok hloss]
    rw [hloss] at hupdates
    obtain ⟨ss, hss, htally', hsyncs⟩ := syncs_sync p rt
      ((update p rt (p.phase t l o)).after w₁) (p.syncCounts t l o loss)
    rw [htally, ht] at htally'
    cases hsynced : (sync p rt (p.syncCounts t l o loss)).outcome
        ((update p rt (p.phase t l o)).after w₁) with
    | error f =>
      rw [Attempt.outcome_bind_of_error hsynced, Attempt.after_bind_of_error hsynced, htally']
      rw [hsynced] at hsyncs
      exact ⟨us ++ ss, hus.trans hss, .notSynced o loss f hupdates hsyncs⟩
    | ok synced =>
      rw [Attempt.outcome_bind_of_ok hsynced, Attempt.after_bind_of_ok hsynced]
      rw [hsynced] at hsyncs
      rw [Attempt.outcome_pure, Attempt.after_pure, htally', Plan.timeSteps_counted]
      exact ⟨us ++ ss, hus.trans hss, .completed o loss synced hupdates hsyncs⟩

/-- **Every step is one of those that `Steps` lists**, whatever the runtime answers. -/
theorem steps_step (p : Plan) (rt : Runtime σ) (w : World σ) :
    ∃ xs, w.Adds ((step p rt).after w) xs ∧
      Steps p w.tally w.learner xs ((step p rt).outcome w) ((step p rt).after w).tally
        ((step p rt).after w).learner := by
  unfold step
  rcases observe_cases p rt w with ⟨f, s, hout, hafter⟩ | ⟨o, s, hout, hafter⟩
  · rw [Attempt.outcome_bind_of_error hout, Attempt.after_bind_of_error hout, hafter]
    exact ⟨_, World.adds_heard _ _ s, .unobserved f⟩
  · rw [Attempt.outcome_bind_of_ok hout, Attempt.after_bind_of_ok hout, hafter]
    let w₁ := (w.heard (.observe (p.nextStep w.tally) (.ok o)) s).take o p.counting
    have ht : w₁.tally = p.counted w.tally o := rfl
    have hl : w₁.learner = w.learner.taken o := rfl
    obtain ⟨xs, hxs, hsteps⟩ := steps_finish p rt ht hl
    exact ⟨_, (World.adds_heard _ _ s).trans hxs, hsteps⟩

end

end Regimen.Training
