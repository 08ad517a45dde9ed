import Mathlib.Algebra.GroupWithZero.Nat
import Regimen.Proofs.Overflow
import Regimen.Proofs.WellFormed

/-!
# The pace of a learner

What a learner calls for in a step follows from what it has observed by then, as long as nothing
fails and nobody else moves its tally. `Plan.calls` says what that is, without any state: an
observation; an update if the count that the interval goes by is a multiple of it and enough is
buffered (`Plan.Fires`); and the target network by an interval of its own. **Every step calls for
exactly that, in this order** (`calls_of_smooth`).

The state that the steps go by is a function of the observations, too. This is the invariant
(`Paced`) that the run is proved with.
-/

namespace Regimen

/-! ### What the observations call for -/

/-- The tally after some observations. -/
def Tally.after (start : Tally) (os : List Training.Observation) : Tally :=
  ⟨start.timeSteps + os.length, start.episodes + os.countP (·.episodeDone)⟩

@[simp] theorem Tally.timeSteps_after (start : Tally) (os : List Training.Observation) :
    (start.after os).timeSteps = start.timeSteps + os.length := rfl

@[simp] theorem Tally.episodes_after (start : Tally) (os : List Training.Observation) :
    (start.after os).episodes = start.episodes + os.countP (·.episodeDone) := rfl

namespace Training

namespace Plan

variable (p : Plan) (start : Tally)

/-- The count that the intervals go by in the step of the last observation. Every step counts as a
time step, and an episode counts in the step that ends it. -/
def decidedAfter (os : List Observation) : Option Nat :=
  match p.agent.cadence.measure with
  | .timeSteps => some (start.after os).timeSteps
  | .episodes => if os.getLast?.any (·.episodeDone) then some (start.after os).episodes else none

variable {p start} in
theorem decidedAfter_of_timeSteps (h : p.agent.cadence.measure = .timeSteps)
    {os : List Observation} : p.decidedAfter start os = some (start.timeSteps + os.length) := by
  simp only [decidedAfter, h, Tally.timeSteps_after]

variable {p start} in
theorem decidedAfter_of_episodes (h : p.agent.cadence.measure = .episodes) {os : List Observation} :
    p.decidedAfter start os = if os.getLast?.any (·.episodeDone) then
      some (start.episodes + os.countP (·.episodeDone)) else none := by
  simp only [decidedAfter, h, Tally.episodes_after]

/-- The number of records that some observations put into memory, and which it holds. -/
def bufferedAfter (os : List Observation) : Nat :=
  min p.agent.memory.capacity (os.map (·.records)).sum

/-- **There is an update in the step of the last observation.** -/
def Fires (os : List Observation) : Prop :=
  p.agent.cadence.enabled ∧ (∃ n ∈ p.decidedAfter start os, p.agent.cadence.interval ∣ n) ∧
    p.agent.cadence.threshold ≤ p.bufferedAfter os

instance (os : List Observation) : Decidable (p.Fires start os) :=
  inferInstanceAs (Decidable (_ ∧ _ ∧ _))

/-- The number of updates in the steps of some observations. -/
def updatesIn (os : List Observation) : Nat :=
  (List.range os.length).countP fun i => p.Fires start (os.take (i + 1))

/-- What the step of the last observation calls for when it comes to the target network. By steps it
is due at every multiple of the interval. By updates it follows the second one and those that come
an interval later. -/
def syncCalls (os : List Observation) : List Call :=
  match p.agent.cadence.targetSync with
  | some ⟨interval, .steps⟩ =>
    match p.decidedAfter start os with
    | some n => if interval ∣ n then [.sync n] else []
    | none => []
  | some ⟨interval, .updates⟩ =>
    let earlier := p.updatesIn start os.dropLast
    if p.Fires start os ∧ earlier % interval = 1 % interval then [.sync (earlier + 1)] else []
  | none => []

/-- The update of a time step: it goes over a batch once, and all of it at a time, unless the agent has
rounds; and the learning rate is that of its schedule in the time step. -/
def updateOf (timeStep : Nat) : Request where
  timeStep := timeStep
  batch := p.agent.cadence.batch
  rounds := match p.agent.cadence.rounds with
    | some r => r.number
    | none => 1
  minibatch := match p.agent.cadence.rounds with
    | some r => r.sample
    | none => p.agent.cadence.batch
  learningRate := p.agent.optimizer.learningRate.valueAt timeStep p.horizon

/-- **What the step of the last observation calls for.** -/
def calls (os : List Observation) : List Call :=
  let timeStep := (start.after os).timeSteps
  .observe timeStep ::
    ((if p.Fires start os then [.update (p.updateOf timeStep)] else []) ++ p.syncCalls start os)

theorem request_eq (timeStep : Nat) : p.request timeStep = p.updateOf timeStep := by
  rcases hrounds : p.agent.cadence.rounds with _ | r <;>
    simp [request, updateOf, Cadence.roundsPerUpdate, Cadence.minibatch, hrounds, Agent.learningRateAt]

theorem updatesIn_append (os : List Observation) (o : Observation) :
    p.updatesIn start (os ++ [o]) =
      p.updatesIn start os + if p.Fires start (os ++ [o]) then 1 else 0 := by
  unfold updatesIn
  rw [List.length_append, List.length_singleton, List.range_succ, List.countP_append,
    List.countP_singleton]
  have htake : (os ++ [o]).take (os.length + 1) = os ++ [o] :=
    List.take_of_length_le (by simp)
  rw [htake]
  have hcount : (List.range os.length).countP (fun i => p.Fires start ((os ++ [o]).take (i + 1))) =
      (List.range os.length).countP fun i => p.Fires start (os.take (i + 1)) := by
    refine List.countP_congr fun i hi => ?_
    rw [List.take_append_of_le_length (List.mem_range.mp hi)]
  rw [hcount]
  simp

end Plan

/-! ### Steps in which nothing fails -/

section

variable {p : Plan} {t t' : Tally} {l l' : Learner} {xs : List Exchange} {phase : Cadence.Phase}
  {timeStep : Nat} {c : Cadence} {counts : Option (Nat × Nat)}

theorem Updates.failure_mem {f : Failure} (h : Updates p timeStep phase l xs (.error f) l') :
    ∃ x ∈ xs, x.failure? = some f := by
  cases h with
  | failed _ _ => exact ⟨_, List.mem_singleton_self _, rfl⟩

theorem Syncs.failure_mem {f : Failure} (h : Syncs c counts l xs (.error f) l') :
    ∃ x ∈ xs, x.failure? = some f := by
  cases h with
  | failed _ _ _ _ _ => exact ⟨_, List.mem_singleton_self _, rfl⟩

theorem Updates.calls_eq {loss : Option Float} (h : Updates p timeStep phase l xs (.ok loss) l') :
    xs.map Exchange.call = (if phase = .updating then [.update (p.request timeStep)] else []) ∧
      (loss.isSome ↔ phase = .updating) ∧
      l'.stats.updates = l.stats.updates + if phase = .updating then 1 else 0 := by
  cases h with
  | skipped hphase => simp [hphase]
  | done loss hphase => simp [hphase, Exchange.call]

/-- What counts call for when it comes to the target network. -/
def dueCalls (c : Cadence) : Option (Nat × Nat) → List Call
  | some (decided, told) => if c.SyncDue decided then [.sync told] else []
  | none => []

theorem Syncs.calls_eq {synced : Bool} (h : Syncs c counts l xs (.ok synced) l') :
    xs.map Exchange.call = dueCalls c counts ∧ l'.stats.updates = l.stats.updates := by
  cases h with
  | skipped hnot =>
    refine ⟨?_, rfl⟩
    rcases counts with _ | ⟨decided, told⟩
    · rfl
    · exact (if_neg (hnot decided told rfl)).symm
  | done decided told hcounts hdue =>
    refine ⟨?_, l.updates_synced⟩
    rw [hcounts]
    exact (if_pos hdue).symm

/-- A step that observes, and in which nothing fails. -/
structure Completes (p : Plan) (t : Tally) (l : Learner) (o : Observation) (loss : Option Float)
    (xs : List Exchange) (r : Except Failure Report) (t' : Tally) (l' : Learner) : Prop where
  /-- It observes once. -/
  seen : xs.filterMap Exchange.seen? = [(p.nextStep t, o)]
  /-- It ends with a report. -/
  reports : ∃ report, r = .ok report
  /-- It counts the observation. -/
  tally : t' = p.counted t o
  /-- It keeps the records. -/
  observed : l'.observed = (l.taken o).observed
  /-- There is a loss where there is an update. -/
  updated : loss.isSome ↔ p.phase t l o = .updating
  /-- It counts the update, if there is one. -/
  updates : l'.stats.updates = l.stats.updates + if p.phase t l o = .updating then 1 else 0
  /-- It calls for an observation, an update and the target network. -/
  calls : xs.map Exchange.call = .observe (p.nextStep t) ::
    ((if p.phase t l o = .updating then [.update (p.request (p.nextStep t))] else []) ++
      dueCalls p.agent.cadence (p.syncCounts t l o loss))

theorem Steps.completes {r : Except Failure Report} (h : Steps p t l xs r t' l')
    (hsmooth : ∀ x ∈ xs, x.failure? = none) : ∃ o loss, Completes p t l o loss xs r t' l' := by
  have hnever {us : List Exchange} {f : Failure} (hus : ∀ x ∈ us, x ∈ xs)
      (hfailure : ∃ x ∈ us, x.failure? = some f) : False := by
    obtain ⟨x, hx, hf⟩ := hfailure
    rw [hsmooth x (hus x hx)] at hf
    cases hf
  cases h with
  | unobserved f => exact absurd (hsmooth _ (List.mem_singleton_self _)) nofun
  | notUpdated o f hu =>
    exact (hnever (fun x hx => List.mem_cons_of_mem _ hx) hu.failure_mem).elim
  | notSynced o loss f hu hs =>
    exact (hnever (fun x hx => List.mem_cons_of_mem _ (List.mem_append_right _ hx))
      hs.failure_mem).elim
  | completed o loss synced hu hs =>
    obtain ⟨hucalls, hloss, hupdates⟩ := hu.calls_eq
    obtain ⟨hscalls, hsupdates⟩ := hs.calls_eq
    refine ⟨o, loss, ?_, ⟨_, rfl⟩, rfl, hs.observed_eq.trans hu.observed_eq, hloss, ?_, ?_⟩
    · show _ :: _ = _
      rw [List.filterMap_append, hu.seen_eq_nil, hs.seen_eq_nil]
      rfl
    · rw [hsupdates, hupdates, l.updates_taken]
    · rw [List.map_cons, List.map_append, hucalls, hscalls]
      rfl

end

/-! ### The state that the steps go by -/

/-- **The tally and the learner are what the observations make of them**, if the tally does not come to
an end. -/
structure Paced (p : Plan) (start : Tally) (os : List Observation) (t : Tally) (l : Learner) :
    Prop where
  /-- The tally counts without end. -/
  counting : p.counting = .endless
  /-- The tally has counted them. -/
  tally : t = start.after os
  /-- The learner has counted their records. -/
  observed : l.observed = min (os.map (·.records)).sum maxCount
  /-- It has counted its updates. -/
  updates : l.stats.updates = p.updatesIn start os

section

variable {p : Plan} {start t t' : Tally} {l l' : Learner} {os : List Observation} {o : Observation}
  {loss : Option Float} {xs : List Exchange} {r : Except Failure Report}

theorem Paced.counted_eq (h : Paced p start os t l) (o : Observation) :
    p.counted t o = start.after (os ++ [o]) := by
  rw [h.tally, Tally.after, Tally.after, Plan.counted, h.counting, List.length_append,
    List.countP_append, List.countP_singleton]
  cases o.episodeDone <;> rfl

theorem Paced.decision_eq (h : Paced p start os t l) (o : Observation) :
    p.decision t o = p.decidedAfter start (os ++ [o]) := by
  rw [Plan.decision, decisionCount, h.counted_eq]
  cases hmeasure : p.agent.cadence.measure with
  | timeSteps =>
    rw [Plan.decidedAfter_of_timeSteps hmeasure, if_pos (.inl rfl)]
    rfl
  | episodes =>
    rw [Plan.decidedAfter_of_episodes hmeasure]
    simp [Tally.count]

theorem Paced.buffered_eq (h : Paced p start os t l) (hcapacity : p.agent.memory.capacity ≤ maxCount)
    (o : Observation) : p.buffered (l.taken o) = p.bufferedAfter (os ++ [o]) := by
  rw [Plan.buffered, Plan.bufferedAfter, Memory.held, l.observed_taken, h.observed, List.map_append,
    List.sum_append, List.map_singleton, List.sum_singleton]
  omega

theorem Plan.decidedAfter_pos {n : Nat} (h : n ∈ p.decidedAfter start (os ++ [o])) : 0 < n := by
  cases hmeasure : p.agent.cadence.measure with
  | timeSteps =>
    rw [Plan.decidedAfter_of_timeSteps hmeasure, List.length_append, List.length_singleton] at h
    cases h
    omega
  | episodes =>
    rw [Plan.decidedAfter_of_episodes hmeasure] at h
    split at h
    · rename_i hdone
      have hlast : o.episodeDone = true := by simpa using hdone
      rw [List.countP_append, List.countP_singleton, if_pos hlast] at h
      cases h
      omega
    · cases h

/-- A step is in the phase for updates where the observations say so. -/
theorem Paced.phase_iff (h : Paced p start os t l) (hcapacity : p.agent.memory.capacity ≤ maxCount)
    (o : Observation) : p.phase t l o = .updating ↔ p.Fires start (os ++ [o]) := by
  rw [Plan.phase, phaseAt_eq_updating_iff, h.decision_eq, h.buffered_eq hcapacity]
  constructor
  · rintro ⟨n, hn, henabled, -, hmod, hthreshold⟩
    exact ⟨henabled, ⟨n, hn, Nat.dvd_of_mod_eq_zero hmod⟩, hthreshold⟩
  · rintro ⟨henabled, ⟨n, hn, hdvd⟩, hthreshold⟩
    exact ⟨n, hn, henabled, Plan.decidedAfter_pos hn, Nat.mod_eq_zero_of_dvd hdvd, hthreshold⟩

/-- The target network is due where the observations say so. -/
theorem Paced.dueCalls_eq (h : Paced p start os t l) (hcapacity : p.agent.memory.capacity ≤ maxCount)
    (hloss : loss.isSome ↔ p.phase t l o = .updating) :
    dueCalls p.agent.cadence (p.syncCounts t l o loss) = p.syncCalls start (os ++ [o]) := by
  rw [h.phase_iff hcapacity] at hloss
  rw [Plan.syncCounts, h.decision_eq, h.updates, Plan.syncCalls, List.dropLast_concat, Cadence.basis]
  rcases htarget : p.agent.cadence.targetSync with _ | ⟨interval, _ | _⟩
  · rfl
  · cases hdecided : p.decidedAfter start (os ++ [o]) with
    | none => rfl
    | some n =>
      have hdue : p.agent.cadence.SyncDue n ↔ interval ∣ n := by
        rw [Cadence.syncDue_iff_of_steps htarget]
        exact ⟨fun hdue => Nat.dvd_of_mod_eq_zero hdue.2,
          fun hdvd => ⟨Plan.decidedAfter_pos hdecided, Nat.mod_eq_zero_of_dvd hdvd⟩⟩
      show (if p.agent.cadence.SyncDue n then [Call.sync n] else []) = _
      simp only [hdue]
  · have hdue : p.agent.cadence.SyncDue (p.updatesIn start os) ↔
        p.updatesIn start os % interval = 1 % interval := Cadence.syncDue_iff_of_updates htarget
    cases loss with
    | none =>
      have hnot : ¬ p.Fires start (os ++ [o]) := fun hfires => by cases hloss.mpr hfires
      exact (if_neg fun hboth => hnot hboth.1).symm
    | some loss =>
      have hfires : p.Fires start (os ++ [o]) := hloss.mp rfl
      show (if p.agent.cadence.SyncDue (p.updatesIn start os) then
        [Call.sync (p.updatesIn start os + 1)] else []) = _
      simp only [hdue, hfires, true_and]

/-- **One step** calls for what the observations say, and leaves what they make of the tally and of
the learner. -/
theorem Paced.completes (h : Paced p start os t l) (hcapacity : p.agent.memory.capacity ≤ maxCount)
    (hc : Completes p t l o loss xs r t' l') :
    xs.map Exchange.call = p.calls start (os ++ [o]) ∧ Paced p start (os ++ [o]) t' l' := by
  have hphase := h.phase_iff hcapacity o
  have htimeStep : p.nextStep t = (start.after (os ++ [o])).timeSteps := by
    rw [← h.counted_eq, p.timeSteps_counted]
  refine ⟨?_, h.counting, ?_, ?_, ?_⟩
  · rw [hc.calls, h.dueCalls_eq hcapacity hc.updated, htimeStep]
    simp only [hphase, p.request_eq]
    rfl
  · rw [hc.tally, h.counted_eq]
  · rw [hc.observed, l.observed_taken, h.observed, List.map_append, List.sum_append,
      List.map_singleton, List.sum_singleton]
    omega
  · rw [hc.updates, h.updates, p.updatesIn_append]
    simp only [hphase]

end

/-! ### Runs of one learner -/

namespace Fleet

variable {σ : Type} {p : Plan} {f f' : Fleet σ} {start : Tally} {past : List Observation}

/-- A fleet of one learner, which is what the observations make of it. -/
def Paced (p : Plan) (start : Tally) (os : List Observation) (f : Fleet σ) : Prop :=
  ∃ l, f.learners = [l] ∧ Training.Paced p start os f.tally l

theorem paced_start (hcounting : p.counting = .endless) (start : Tally) (s : σ) :
    Paced p start [] (Fleet.start start 1 s) :=
  ⟨.new, rfl, hcounting, rfl, rfl, rfl⟩

/-- A smooth step of the only learner observes, reports, and calls for what the observations say. -/
theorem Paced.happens {h : Happening} (hf : Paced p start past f)
    (hcapacity : p.agent.memory.capacity ≤ maxCount) (hh : Happens p f h f')
    (hevent : h.event = .step 0) (hsmooth : h.Smooth) :
    ∃ o, h.observations = [o] ∧ (∃ report, h.outcome = some (.ok report)) ∧
      h.exchanges.map Exchange.call = p.calls start (past ++ [o]) ∧
      Paced p start (past ++ [o]) f' := by
  obtain ⟨l, hl, hpaced⟩ := hf
  cases hh with
  | missing hmissing =>
    cases hevent
    rw [hl] at hmissing
    cases hmissing
  | advanced => cases hevent
  | ended => cases hevent
  | stepped s hlearner hsteps =>
    cases hevent
    rw [hl] at hlearner
    cases hlearner
    obtain ⟨o, loss, hc⟩ := hsteps.completes hsmooth
    obtain ⟨hcalls, hpaced'⟩ := hpaced.completes hcapacity hc
    obtain ⟨report, rfl⟩ := hc.reports
    refine ⟨o, congrArg (List.map Prod.snd) hc.seen, ⟨report, rfl⟩, hcalls, _, ?_, hpaced'⟩
    rw [hl]
    rfl

/-- **A smooth run of the only learner.** Every step calls for what the observations up to its own
say. -/
theorem Runs.calls_eq {hs : List Happening} (hr : Runs p f hs f') (hf : Paced p start past f)
    (hcapacity : p.agent.memory.capacity ≤ maxCount) (hevents : ∀ h ∈ hs, h.event = .step 0)
    (hsmooth : ∀ h ∈ hs, h.Smooth) :
    ∃ os : List Observation, hs.map Happening.observations = os.map ([·]) ∧
      ∀ i h, hs[i]? = some h → (∃ report, h.outcome = some (.ok report)) ∧
        h.exchanges.map Exchange.call = p.calls start (past ++ os.take (i + 1)) := by
  -- The rest of a run starts with one observation more behind it.
  induction hr generalizing past with
  | nil f => exact ⟨[], rfl, nofun⟩
  | @cons f₁ f₂ f₃ h hs hh hr ih =>
    obtain ⟨o, hobserved, hreports, hcalls, hf₂⟩ := hf.happens hcapacity hh
      (hevents h List.mem_cons_self) (hsmooth h List.mem_cons_self)
    obtain ⟨os, hos, hlater⟩ := ih hf₂ (fun x hx => hevents x (List.mem_cons_of_mem _ hx))
      fun x hx => hsmooth x (List.mem_cons_of_mem _ hx)
    refine ⟨o :: os, ?_, ?_⟩
    · rw [List.map_cons, List.map_cons, hobserved, hos]
    · intro i x hx
      cases i with
      | zero =>
        cases hx
        exact ⟨hreports, hcalls⟩
      | succ i =>
        obtain ⟨hreports', hcalls'⟩ := hlater i x hx
        refine ⟨hreports', ?_⟩
        rw [hcalls', List.append_assoc]
        rfl

end Fleet

/-! ### Agents that were decoded -/

/-- Only the target network of a DQN agent goes by steps. -/
theorem basis_eq_steps_iff {a : Agent} (h : a.WellFormed) : a.cadence.basis = some .steps ↔ a.kind = .dqn := by
  have hsuits := h.cadence.suits
  rw [Cadence.basis]
  cases hkind : a.kind with
  | dqn =>
    rw [hkind] at hsuits
    obtain ⟨⟨n, -, htarget⟩, -⟩ := hsuits
    simp [htarget]
  | apex =>
    rw [hkind] at hsuits
    obtain ⟨⟨n, -, htarget⟩, -⟩ := hsuits
    simp [htarget]
  | ppo =>
    rw [hkind] at hsuits
    simp [hsuits.1]

/-- Where there are no updates none is asked for, in whatever company. -/
theorem Fleet.Runs.update_not_mem {σ : Type} {p : Plan} {f f' : Fleet σ} {h : Happening}
    {hs : List Happening} (hr : Fleet.Runs p f hs f') (hmem : h ∈ hs)
    (henabled : p.agent.cadence.enabled = false) (request : Request) (answer : Except Failure Float) :
    .update request answer ∉ h.exchanges := by
  intro hx
  obtain ⟨_, _, hh⟩ := hr.happens_of_mem hmem
  obtain ⟨n, _, _, -, -, hdue, -⟩ := hh.of_update_mem hx
  have hyes := hdue.1
  rw [henabled] at hyes
  cases hyes

/-- Where there is no target network nothing is done about it. -/
theorem Fleet.Runs.sync_not_mem {σ : Type} {p : Plan} {f f' : Fleet σ} {h : Happening}
    {hs : List Happening} (hr : Fleet.Runs p f hs f') (hmem : h ∈ hs)
    (htarget : p.agent.cadence.targetSync = none) (count : Nat) (answer : Except Failure Unit) :
    .sync count answer ∉ h.exchanges := by
  intro hx
  obtain ⟨_, _, hh⟩ := hr.happens_of_mem hmem
  obtain ⟨decided, hdue⟩ := hh.due_of_sync_mem hx
  exact Cadence.not_syncDue htarget decided hdue

/-- The run of a single learner whose counts do not overflow. -/
theorem Fleet.calls_solo {σ : Type} {p : Plan} {rt : Runtime σ} {start : Tally} {s : σ} {n : Nat}
    (hcounts : p.counting = .around → start.timeSteps + n ≤ maxCount ∧ start.episodes + n ≤ maxCount)
    (hcapacity : p.agent.memory.capacity ≤ maxCount)
    (hsmooth : ∀ h ∈ Fleet.solo p rt start s n, h.Smooth) :
    ∃ os : List Observation, os.length = n ∧
      (Fleet.solo p rt start s n).map Happening.observations = os.map ([·]) ∧
      ∀ i h, (Fleet.solo p rt start s n)[i]? = some h → (∃ report, h.outcome = some (.ok report)) ∧
        h.exchanges.map Exchange.call = p.calls start (os.take (i + 1)) := by
  have hsolo : Fleet.solo p rt start s n = Fleet.solo p.endless rt start s n :=
    congrArg Prod.fst (Fleet.neverOverflows_solo start s hcounts).run_eq
  rw [hsolo] at hsmooth ⊢
  obtain ⟨_, hr⟩ := Fleet.runs_solo p.endless rt start s n
  obtain ⟨os, hos, hcalls⟩ := hr.calls_eq (Fleet.paced_start rfl start s) hcapacity
    (fun _ => Fleet.event_of_mem_solo) hsmooth
  refine ⟨os, ?_, hos, hcalls⟩
  have hlength := congrArg List.length hos
  rw [List.length_map, List.length_map, Fleet.length_solo] at hlength
  exact hlength.symm

/-- **The pace of a learner is exact.** Where a single learner trains an agent that was decoded, nothing
fails and no count overflows, each of its steps calls for what its observations say. Without updates
none is ever called for, and PPO never calls for a target network, in whatever company and wherever the
tally goes. -/
theorem calls_of_smooth {σ : Type} {options : Options} {document : Value} {a : Agent}
    (hdecode : Agent.decode options document = .ok a) (horizon : Nat) (counting : Counting)
    (rt : Runtime σ) (start : Tally) (s : σ) (n : Nat)
    (hcounts : counting = .around → start.timeSteps + n ≤ maxCount ∧ start.episodes + n ≤ maxCount)
    (hsmooth : ∀ h ∈ Fleet.solo ⟨a, horizon, counting⟩ rt start s n, h.Smooth) :
    (∃ os : List Observation, os.length = n ∧
      (Fleet.solo ⟨a, horizon, counting⟩ rt start s n).map Happening.observations = os.map ([·]) ∧
      ∀ i h, (Fleet.solo ⟨a, horizon, counting⟩ rt start s n)[i]? = some h →
        (∃ report, h.outcome = some (.ok report)) ∧
        h.exchanges.map Exchange.call = Plan.calls ⟨a, horizon, counting⟩ start (os.take (i + 1))) ∧
    (a.cadence.basis = some .steps ↔ a.kind = .dqn) ∧
    ∀ (f : Fleet σ) (es : List Event), ∀ h ∈ (f.run ⟨a, horizon, counting⟩ rt es).1,
      (a.cadence.enabled = false → ∀ request answer, .update request answer ∉ h.exchanges) ∧
      (a.kind = .ppo → ∀ count answer, .sync count answer ∉ h.exchanges) := by
  obtain ⟨_, _, -, hparts⟩ := Agent.parts_of_decode hdecode
  have hwell := hparts.wellFormed
  refine ⟨?_, basis_eq_steps_iff hwell, ?_⟩
  · exact Fleet.calls_solo hcounts hwell.memory.capacity_le hsmooth
  · intro f es h hmem
    have hr := Fleet.runs_run ⟨a, horizon, counting⟩ rt f es
    refine ⟨hr.update_not_mem hmem, fun hkind => hr.sync_not_mem hmem ?_⟩
    have hsuits := hwell.cadence.suits
    rw [hkind] at hsuits
    exact hsuits.1

theorem calls_of_smooth_cartpole :
    ∃ a, Agent.decode .standard (Agent.cartpole 16) = .ok a ∧
      (∀ h ∈ Fleet.solo ⟨a, 100, .around⟩ (Runtime.steady ⟨1, false⟩) .zero () 12, h.Smooth) ∧
      ∃ os : List Observation, os.length = 12 ∧
        ∀ i h, (Fleet.solo ⟨a, 100, .around⟩ (Runtime.steady ⟨1, false⟩) .zero () 12)[i]? = some h →
          h.exchanges.map Exchange.call = Plan.calls ⟨a, 100, .around⟩ .zero (os.take (i + 1)) := by
  obtain ⟨a, ha, hsmooth⟩ : ∃ a, Agent.decode .standard (Agent.cartpole 16) = .ok a ∧
    ∀ h ∈ Fleet.solo ⟨a, 100, .around⟩ (Runtime.steady ⟨1, false⟩) .zero () 12, h.Smooth :=
    ⟨_, rfl, by decide⟩
  obtain ⟨⟨os, hlength, -, hcalls⟩, -⟩ := calls_of_smooth ha 100 .around (Runtime.steady ⟨1, false⟩)
    .zero () 12 (fun _ => by decide) hsmooth
  exact ⟨a, ha, hsmooth, os, hlength, fun i h hi => (hcalls i h hi).2⟩

end Training

end Regimen
