import Regimen.Proofs.TargetSync

/-!
# What learners account for

A learner counts what it has done, and each step that does not fail gives a report. Both are compared
with the exchanges, which record what the runtime was asked for and what it answered. **The counts are
those of the answers that were no failure, and a report tells what was asked for in its step**
(`accountsFor_run`), whatever learners do side by side and wherever their steps fail.

A step may fail in three places, and it changes what the learner remembers in four. What is preserved
is one equation: the counts after a step are those before it, carried on by the exchanges of the step
(`Stats.after`, `Steps.stats_eq`).
-/

namespace Regimen.Training

/-! ### Counts of exchanges -/

/-- The target network was brought up to date, after so many steps or updates. -/
def Exchange.synced? : Exchange → Option Nat
  | sync count (.ok ()) => some count
  | _ => none

/-- The update that was asked for, whatever the answer. -/
def Exchange.request? : Exchange → Option Request
  | update request _ => some request
  | _ => none

namespace Stats

/-- The counts after some more exchanges. -/
def after (s : Stats) (xs : List Exchange) : Stats where
  steps := s.steps + (xs.filterMap Exchange.seen?).length
  updates := s.updates + (xs.filterMap Exchange.loss?).length
  syncs := s.syncs + (xs.filterMap Exchange.synced?).length
  lastLoss := (xs.filterMap Exchange.loss?).getLast?.or s.lastLoss

@[simp] theorem after_nil (s : Stats) : s.after [] = s := rfl

/-- Exchanges carry the counts on one after another. -/
theorem after_append (s : Stats) (xs ys : List Exchange) :
    s.after (xs ++ ys) = (s.after xs).after ys := by
  simp only [after, List.filterMap_append, List.length_append, Nat.add_assoc, List.getLast?_append,
    Option.or_assoc]

/-- **Counts account for exchanges**: they are the numbers of observations, updates and
synchronisations that did not fail, and the loss is the one of the last update among them. -/
structure AccountsFor (s : Stats) (xs : List Exchange) : Prop where
  /-- The observations. -/
  steps : s.steps = (xs.filterMap Exchange.seen?).length
  /-- The updates. -/
  updates : s.updates = (xs.filterMap Exchange.loss?).length
  /-- How often the target network was brought up to date. -/
  syncs : s.syncs = (xs.filterMap Exchange.synced?).length
  /-- The loss of the last update, if there was one. -/
  lastLoss : s.lastLoss = (xs.filterMap Exchange.loss?).getLast?

/-- The counts of a learner that begins account for what it goes on to ask for. -/
theorem accountsFor_after_new (xs : List Exchange) : (Learner.new.stats.after xs).AccountsFor xs where
  steps := Nat.zero_add _
  updates := Nat.zero_add _
  syncs := Nat.zero_add _
  lastLoss := Option.or_none

end Stats

/-- What a learner asked for and was answered when something happened. -/
def Happening.exchangesOf (h : Happening) (worker : Nat) : List Exchange :=
  if h.event = .step worker then h.exchanges else []

/-- What a learner asked for and was answered, first to last. -/
def exchangesOf (worker : Nat) (hs : List Happening) : List Exchange := hs.flatMap (·.exchangesOf worker)

/-! ### Orderly steps and reports -/

/-- **A step is orderly**: it calls for an observation, for an update and for the target network at
most once each, and in this order. -/
def Orderly (xs : List Exchange) : Prop :=
  ∃ timeStep request count,
    (xs.map Exchange.call).Sublist [.observe timeStep, .update request, .sync count]

/-- **A report tells** what was asked for in its step. -/
structure Report.Tells (report : Report) (basis : Option Cadence.Basis) (xs : List Exchange) : Prop where
  /-- There is a loss in the phase for updates. -/
  updating_iff : report.phase = .updating ↔ report.loss.isSome
  /-- There is a loss where exactly one update was asked for. -/
  asked_iff : report.loss.isSome ↔ (xs.filterMap Exchange.request?).length = 1
  /-- The loss is the answer to that update. -/
  loss_iff : ∀ loss, report.loss = some loss ↔ ∃ request, .update request (.ok loss) ∈ xs
  /-- The target network was brought up to date where it was called for. -/
  synced_iff : report.synced = true ↔ ∃ count reply, .sync count reply ∈ xs
  /-- Where it follows the updates, there was one. -/
  loss_of_synced : basis = some .updates → report.synced = true → report.loss.isSome

/-! ### One step -/

section

variable {p : Plan} {t t' : Tally} {l l' : Learner} {xs : List Exchange} {phase : Cadence.Phase}
  {timeStep : Nat} {c : Cadence} {counts : Option (Nat × Nat)}

theorem Updates.stats_eq {r : Except Failure (Option Float)} (h : Updates p timeStep phase l xs r l') :
    l'.stats = l.stats.after xs := by
  cases h with
  | skipped _ => rfl
  | failed _ _ => rfl
  | done loss _ => rfl

theorem Syncs.stats_eq {r : Except Failure Bool} (h : Syncs c counts l xs r l') :
    l'.stats = l.stats.after xs := by
  cases h with
  | skipped _ => rfl
  | failed _ _ _ _ _ => rfl
  | done _ _ _ _ => rfl

theorem Learner.stats_taken (l : Learner) (o : Observation) (timeStep : Nat) :
    (l.taken o).stats = l.stats.after [.observe timeStep (.ok o)] := rfl

/-- **A step carries the counts on** by what it has asked for, wherever it fails. -/
theorem Steps.stats_eq {r : Except Failure Report} (h : Steps p t l xs r t' l') :
    l'.stats = l.stats.after xs := by
  rcases h.parts with ⟨f, rfl, -, rfl⟩ | ⟨o, us, ss, r₁, l₁, _, r₂, rfl, -, hu, hs⟩
  · rfl
  · calc l'.stats
        = (l₁.stats.after ss) := hs.stats_eq
      _ = ((l.taken o).stats.after us).after ss := by rw [hu.stats_eq]
      _ = l.stats.after ([.observe (p.nextStep t) (.ok o)] ++ (us ++ ss)) := by
          rw [Stats.after_append, Stats.after_append, ← l.stats_taken o]

theorem Updates.calls_sublist {r : Except Failure (Option Float)}
    (h : Updates p timeStep phase l xs r l') :
    (xs.map Exchange.call).Sublist [.update (p.request timeStep)] := by
  cases h with
  | skipped _ => exact List.nil_sublist _
  | failed _ _ => exact .refl _
  | done _ _ => exact .refl _

theorem Syncs.calls_sublist {r : Except Failure Bool} (h : Syncs c counts l xs r l') :
    ∃ told, (xs.map Exchange.call).Sublist [.sync told] := by
  cases h with
  | skipped _ => exact ⟨0, List.nil_sublist _⟩
  | failed _ told _ _ _ => exact ⟨told, .refl _⟩
  | done _ told _ _ => exact ⟨told, .refl _⟩

/-- Every step is orderly. -/
theorem Steps.orderly {r : Except Failure Report} (h : Steps p t l xs r t' l') : Orderly xs := by
  rcases h.parts with ⟨f, rfl, -⟩ | ⟨o, us, ss, _, _, _, _, rfl, -, hu, hs⟩
  · exact ⟨p.nextStep t, p.request 0, 0, List.singleton_sublist.mpr List.mem_cons_self⟩
  · obtain ⟨told, hss⟩ := hs.calls_sublist
    refine ⟨p.nextStep t, p.request (p.nextStep t), told, ?_⟩
    rw [List.map_cons, List.map_append]
    exact (hu.calls_sublist.append hss).cons_cons _

/-- An update that has not failed is asked for in the phase for it, and its answer is the loss. -/
theorem Updates.loss_cases {loss : Option Float} (h : Updates p timeStep phase l xs (.ok loss) l') :
    (phase ≠ .updating ∧ xs = [] ∧ loss = none) ∨
    ∃ answer, phase = .updating ∧ xs = [.update (p.request timeStep) (.ok answer)] ∧
      loss = some answer := by
  cases h with
  | skipped hphase => exact .inl ⟨hphase, rfl, rfl⟩
  | done answer hphase => exact .inr ⟨answer, hphase, rfl, rfl⟩

/-- The target network is brought up to date where this is asked for and has not failed. -/
theorem Syncs.synced_cases {synced : Bool} (h : Syncs c counts l xs (.ok synced) l') :
    (xs = [] ∧ synced = false) ∨
    ∃ decided told, counts = some (decided, told) ∧ xs = [.sync told (.ok ())] ∧ synced = true := by
  cases h with
  | skipped _ => exact .inl ⟨rfl, rfl⟩
  | done decided told hcounts _ => exact .inr ⟨decided, told, hcounts, rfl, rfl⟩

/-- Without an update there is nothing to go by where updates are counted. -/
theorem Plan.isSome_of_syncCounts {o : Observation} {loss : Option Float} {counts : Nat × Nat}
    (hbasis : p.agent.cadence.basis = some .updates) (h : p.syncCounts t l o loss = some counts) :
    loss.isSome := by
  rw [Plan.syncCounts, hbasis] at h
  obtain ⟨answer, rfl, -⟩ := Option.map_eq_some_iff.mp h
  rfl

/-- **The report of a step tells** what the step has asked for. -/
theorem Steps.tells {report : Report} (h : Steps p t l xs (.ok report) t' l') :
    report.Tells p.agent.cadence.basis xs := by
  cases h with
  | completed o loss synced hu hs =>
    rcases hu.loss_cases with ⟨hphase, rfl, rfl⟩ | ⟨answer, hphase, rfl, rfl⟩ <;>
    rcases hs.synced_cases with ⟨rfl, rfl⟩ | ⟨decided, told, hcounts, rfl, rfl⟩
    · exact ⟨by simp [hphase], by simp [List.filterMap_cons, Exchange.request?], by simp, by simp, by simp⟩
    · refine ⟨by simp [hphase], by simp [List.filterMap_cons, Exchange.request?], by simp, by simp,
        fun hbasis _ => ?_⟩
      exact Plan.isSome_of_syncCounts hbasis hcounts
    · exact ⟨by simp [hphase], by simp [List.filterMap_cons, Exchange.request?], by simp [eq_comm],
        by simp, by simp⟩
    · exact ⟨by simp [hphase], by simp [List.filterMap_cons, Exchange.request?], by simp [eq_comm],
        by simp, by simp⟩

end

/-! ### Runs -/

namespace Fleet

variable {σ : Type} {p : Plan} {f f' : Fleet σ} {h : Happening} {hs : List Happening}

/-- What happens is a step of a learner, which is accounted to it, or nothing is accounted to it and it
stays as it is. -/
theorem Happens.account_cases (hh : Happens p f h f') (worker : Nat) :
    (∃ l l' r, h.outcome = some r ∧ f.learners[worker]? = some l ∧ f'.learners[worker]? = some l' ∧
      Steps p f.tally l (h.exchangesOf worker) r h.tally l') ∨
    f'.learners[worker]? = f.learners[worker]? ∧ h.exchangesOf worker = [] ∧
      (h.event = .step worker → h.outcome = none) := by
  rcases hh.learner_cases worker with ⟨l, l', r, hevent, houtcome, hl, hl', hsteps⟩ | ⟨heq, hquiet⟩
  · have hown : h.exchangesOf worker = h.exchanges := if_pos hevent
    rw [← hown] at hsteps
    exact .inl ⟨l, l', r, houtcome, hl, hl', hsteps⟩
  · refine .inr ⟨heq, ?_, fun hevent => (hquiet hevent).2⟩
    by_cases hevent : h.event = .step worker
    · rw [Happening.exchangesOf, if_pos hevent, (hquiet hevent).1]
    · exact if_neg hevent

/-- Only its own steps carry the counts of a learner on. -/
theorem Happens.stats_eq (hh : Happens p f h f') (worker : Nat) :
    f'.learners[worker]?.map Learner.stats =
      f.learners[worker]?.map (·.stats.after (h.exchangesOf worker)) := by
  rcases hh.account_cases worker with ⟨l, l', r, -, hl, hl', hsteps⟩ | ⟨heq, hnil, -⟩
  · rw [hl, hl', Option.map_some, Option.map_some, hsteps.stats_eq]
  · rw [heq, hnil]
    simp only [Stats.after_nil]

/-- A run carries the counts of a learner on by what the learner has asked for. -/
theorem Runs.stats_eq (hr : Runs p f hs f') (worker : Nat) :
    f'.learners[worker]?.map Learner.stats =
      f.learners[worker]?.map (·.stats.after (exchangesOf worker hs)) := by
  induction hr with
  | nil f => rfl
  | @cons f f₁ f₂ h hs hh _ ih =>
    have hcons : exchangesOf worker (h :: hs) = h.exchangesOf worker ++ exchangesOf worker hs := rfl
    calc f₂.learners[worker]?.map Learner.stats
        = (f₁.learners[worker]?.map Learner.stats).map (·.after (exchangesOf worker hs)) := by
          rw [ih, Option.map_map]
          rfl
      _ = f.learners[worker]?.map (·.stats.after (exchangesOf worker (h :: hs))) := by
          rw [hh.stats_eq, Option.map_map, hcons]
          simp only [Function.comp_def, Stats.after_append]

/-- **The accounts are exact.** Whatever learners do that start together, in whatever order, and
wherever their steps fail: the counts of each learner account for what it asked for and was answered,
every step is orderly, and the report of a step that has not failed tells what the step asked for. -/
theorem accountsFor_run (p : Plan) (rt : Runtime σ) (start : Tally) (workers : Nat) (s : σ)
    (es : List Event) :
    (∀ (worker : Nat) (l : Learner),
      ((Fleet.start start workers s).run p rt es).2.learners[worker]? = some l →
      l.stats.AccountsFor (exchangesOf worker ((Fleet.start start workers s).run p rt es).1)) ∧
    ∀ h ∈ ((Fleet.start start workers s).run p rt es).1, Orderly h.exchanges ∧
      ∀ report, h.outcome = some (.ok report) →
        report.Tells p.agent.cadence.basis h.exchanges := by
  have hruns := runs_run p rt (Fleet.start start workers s) es
  refine ⟨fun worker l hl => ?_, fun h hmem => ?_⟩
  · have hstats := hruns.stats_eq worker
    rw [hl, Option.map_some] at hstats
    obtain ⟨l₀, hl₀, hstats⟩ := Option.map_eq_some_iff.mp hstats.symm
    obtain rfl : l₀ = .new := List.eq_of_mem_replicate (List.mem_of_getElem? hl₀)
    rw [← hstats]
    exact Stats.accountsFor_after_new _
  · obtain ⟨_, _, hh⟩ := hruns.happens_of_mem hmem
    rcases hh.steps_or_quiet with ⟨l, r, l', houtcome, hsteps⟩ | ⟨hnone, hnil⟩
    · refine ⟨hsteps.orderly, fun report hreport => ?_⟩
      rw [houtcome] at hreport
      cases hreport
      exact hsteps.tells
    · rw [hnone, hnil]
      exact ⟨⟨0, p.request 0, 0, List.nil_sublist _⟩, nofun⟩

end Fleet

/-- Two learners take turns, and the first two updates fail. The first learner has made two of its
three updates by then, and its last step has brought the target network up to date. -/
theorem accountsFor_run_pendulum :
    let es : List Event := (List.replicate 3 [.step 0, .step 1]).flatten
    ∃ a, Agent.decode .standard Agent.pendulum = .ok a ∧
      (∃ l,
        ((Fleet.start .zero 2 ()).run ⟨a, 100, .around⟩ (Runtime.warmingUp 2) es).2.learners[0]? = some l ∧
        l.stats = ⟨3, 2, 1, some 0.5⟩ ∧ l.stats.AccountsFor
          (exchangesOf 0 ((Fleet.start .zero 2 ()).run ⟨a, 100, .around⟩ (Runtime.warmingUp 2) es).1)) ∧
      ∃ h ∈ ((Fleet.start .zero 2 ()).run ⟨a, 100, .around⟩ (Runtime.warmingUp 2) es).1,
        ∃ report, h.outcome = some (.ok report) ∧ report.synced = true ∧
          report.Tells (some .updates) h.exchanges := by
  intro es
  obtain ⟨a, ha, hbasis, ⟨l, hl, hstats⟩, h, hmem, report, hreport, hsynced⟩ :
      ∃ a, Agent.decode .standard Agent.pendulum = .ok a ∧ a.cadence.basis = some .updates ∧
        (∃ l,
        ((Fleet.start .zero 2 ()).run ⟨a, 100, .around⟩ (Runtime.warmingUp 2) es).2.learners[0]? = some l ∧
          l.stats = ⟨3, 2, 1, some 0.5⟩) ∧
        ∃ h ∈ ((Fleet.start .zero 2 ()).run ⟨a, 100, .around⟩ (Runtime.warmingUp 2) es).1,
          ∃ report, h.outcome = some (.ok report) ∧ report.synced = true :=
    ⟨_, rfl, rfl, ⟨_, rfl, rfl⟩, _, List.getLast_mem (by decide), _, rfl, rfl⟩
  obtain ⟨haccounts, hsteps⟩ :=
    Fleet.accountsFor_run ⟨a, 100, .around⟩ (Runtime.warmingUp 2) .zero 2 () es
  refine ⟨a, ha, ⟨l, hl, hstats, haccounts 0 l hl⟩, h, hmem, report, hreport, hsynced, ?_⟩
  rw [← hbasis]
  exact (hsteps h hmem).2 report hreport

end Regimen.Training
