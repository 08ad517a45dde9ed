import Mathlib.Algebra.GroupWithZero.Nat
import Regimen.Proofs.Overflow
import Regimen.Proofs.WellFormed

/-!
# Learners that share a tally

The time steps of a fleet are counted in one tally, which every learner moves when it observes and
which may move from outside. Whatever the order in which the learners take their steps, and wherever
these fail, **no count is lost and none is taken twice** (`accounted_run`): the time steps that are
taken increase strictly, the tally ends where they and the outside moves put it, and a measure that
is not moved from outside has each of its counts decided about in exactly one step.

This is about counts that do not overflow (`Fleet.NeverOverflows`): it is proved of a tally that counts
without end, which such a run cannot tell from its own.

The invariant is about one measure at a time: a happening either decides about the next count and
moves the tally there, or it decides about nothing and the tally moves at most from outside
(`Fleet.Happens.decisions_cases`).
-/

namespace Regimen.Training

/-- By how much an event moves the tally from outside. -/
def Event.outside : Event → Cadence.Measure → Nat
  | .advance n, .timeSteps => n
  | .endEpisode, .episodes => 1
  | _, _ => 0

/-- The counts that the intervals go by when something happens. -/
def Happening.decisions (h : Happening) (measure : Cadence.Measure) : List Nat :=
  h.observations.filterMap (decisionCount measure h.tally)

/-- **Exactly one happening decides about a count**, and it is the step of a learner. -/
def DecidedOnce (hs : List Happening) (measure : Cadence.Measure) (n : Nat) : Prop :=
  ∃ before h after worker, hs = before ++ h :: after ∧ h.event = .step worker ∧
    n ∈ h.decisions measure ∧ ∀ h' ∈ before ++ after, n ∉ h'.decisions measure

/-! ### One happening -/

/-- An observation that ends an episode decides about both measures, any other one about time steps
only. -/
theorem Plan.decisionCount_cases (p : Plan) (t : Tally) (o : Observation) (measure : Cadence.Measure) :
    (decisionCount measure (p.endless.counted t o) o = none ∧
      (p.endless.counted t o).count measure = t.count measure) ∨
    (decisionCount measure (p.endless.counted t o) o = some (t.count measure + 1) ∧
      (p.endless.counted t o).count measure = t.count measure + 1) := by
  cases measure with
  | timeSteps =>
    have hcount : (p.endless.counted t o).count .timeSteps = t.timeSteps + 1 :=
      p.endless.timeSteps_counted t o
    refine .inr ⟨?_, hcount⟩
    rw [decisionCount, if_pos (.inl rfl), hcount]
    rfl
  | episodes =>
    have hcount : (p.endless.counted t o).count .episodes =
        if o.episodeDone then t.episodes + 1 else t.episodes := p.endless.episodes_counted t o
    rw [decisionCount, hcount]
    cases hdone : o.episodeDone with
    | false => exact .inl ⟨if_neg (by simp), rfl⟩
    | true => exact .inr ⟨if_pos (.inr rfl), rfl⟩

namespace Fleet

variable {σ : Type} {p : Plan} {f f' : Fleet σ} {h : Happening} {hs : List Happening}

theorem Happens.tally_eq (hh : Happens p.endless f h f') : h.tally = f'.tally := by
  cases hh <;> rfl

/-- Only a step observes; whatever happens without an observation moves the tally from outside or
not at all. -/
theorem Happens.seen_cases (hh : Happens p.endless f h f') :
    (h.seen = [] ∧ ∀ measure, f'.tally.count measure = f.tally.count measure + h.event.outside measure) ∨
    ∃ worker o, h.event = .step worker ∧ h.seen = [(f.tally.timeSteps + 1, o)] ∧
      f'.tally = p.endless.counted f.tally o := by
  cases hh with
  | missing hl => exact .inl ⟨rfl, fun _ => rfl⟩
  | advanced n => exact .inl ⟨rfl, fun measure => by cases measure <;> rfl⟩
  | ended => exact .inl ⟨rfl, fun measure => by cases measure <;> rfl⟩
  | stepped s hl hsteps =>
    rcases hsteps.seen_cases with ⟨hseen, htally, -⟩ | ⟨o, hseen, htally, -⟩
    · refine .inl ⟨hseen, fun measure => ?_⟩
      rw [htally]
      rfl
    · exact .inr ⟨_, o, rfl, hseen, htally⟩

/-- A happening decides about the next count and moves the tally there, or about none. -/
theorem Happens.decisions_cases (hh : Happens p.endless f h f') (measure : Cadence.Measure) :
    (h.decisions measure = [] ∧
      f'.tally.count measure = f.tally.count measure + h.event.outside measure) ∨
    ∃ worker, h.event = .step worker ∧ h.decisions measure = [f.tally.count measure + 1] ∧
      f'.tally.count measure = f.tally.count measure + 1 := by
  rw [Happening.decisions, Happening.observations, hh.tally_eq]
  rcases hh.seen_cases with ⟨hseen, htally⟩ | ⟨worker, o, hevent, hseen, htally⟩
  · rw [hseen]
    exact .inl ⟨rfl, htally measure⟩
  · rw [hseen, htally]
    rcases p.decisionCount_cases f.tally o measure with ⟨hnone, hcount⟩ | ⟨hsome, hcount⟩
    · refine .inl ⟨?_, ?_⟩
      · simp [hnone]
      · rw [hcount, hevent]
        rfl
    · refine .inr ⟨worker, hevent, ?_, hcount⟩
      simp [hsome]

/-- An observation is made in the time step that it takes. -/
theorem Happens.taken (hh : Happens p.endless f h f') {x : Nat × Observation} (hx : x ∈ h.seen) :
    x.1 = h.tally.timeSteps := by
  rw [hh.tally_eq]
  rcases hh.seen_cases with ⟨hseen, -⟩ | ⟨-, o, -, hseen, htally⟩
  · rw [hseen] at hx
    cases hx
  · rw [hseen, List.mem_singleton] at hx
    rw [hx, htally, p.endless.timeSteps_counted]
    rfl

/-- The time steps that are decided about are those that are taken. -/
theorem Happens.decisions_timeSteps (hh : Happens p.endless f h f') :
    h.decisions .timeSteps = h.seen.map Prod.fst := by
  rw [Happening.decisions, Happening.observations, hh.tally_eq]
  rcases hh.seen_cases with ⟨hseen, -⟩ | ⟨-, o, -, hseen, htally⟩
  · rw [hseen]
    rfl
  · rw [hseen, htally]
    have hcount : (p.endless.counted f.tally o).count .timeSteps = f.tally.timeSteps + 1 :=
      p.endless.timeSteps_counted f.tally o
    simp [decisionCount, hcount]

theorem Happens.timeSteps_eq (hh : Happens p.endless f h f') :
    f'.tally.timeSteps =
      f.tally.timeSteps + h.observations.length + h.event.outside .timeSteps := by
  rw [Happening.observations]
  rcases hh.seen_cases with ⟨hseen, htally⟩ | ⟨worker, o, hevent, hseen, htally⟩
  · rw [hseen]
    exact htally .timeSteps
  · rw [hseen, hevent, htally, p.endless.timeSteps_counted]
    rfl

theorem Happens.episodes_eq (hh : Happens p.endless f h f') :
    f'.tally.episodes =
      f.tally.episodes + h.observations.countP (·.episodeDone) + h.event.outside .episodes := by
  rw [Happening.observations]
  rcases hh.seen_cases with ⟨hseen, htally⟩ | ⟨worker, o, hevent, hseen, htally⟩
  · rw [hseen]
    exact htally .episodes
  · rw [hseen, hevent, htally, p.endless.episodes_counted]
    cases hdone : o.episodeDone with
    | false => simp [hdone, Event.outside]
    | true => simp [hdone, Event.outside]

theorem Happens.count_le (hh : Happens p.endless f h f') (measure : Cadence.Measure) :
    f.tally.count measure ≤ f'.tally.count measure := by
  rcases hh.decisions_cases measure with ⟨-, hcount⟩ | ⟨-, -, -, hcount⟩ <;> omega

/-! ### Runs -/

theorem Runs.count_le (hr : Runs p.endless f hs f') (measure : Cadence.Measure) :
    f.tally.count measure ≤ f'.tally.count measure := by
  induction hr with
  | nil f => exact Nat.le_refl _
  | cons hh _ ih => exact Nat.le_trans (hh.count_le measure) ih

/-- The counts that are decided about lie between the two ends of a run. -/
theorem Runs.between_of_mem_decisions (hr : Runs p.endless f hs f') {measure : Cadence.Measure} {n : Nat}
    (hn : n ∈ hs.flatMap (·.decisions measure)) :
    f.tally.count measure < n ∧ n ≤ f'.tally.count measure := by
  induction hr with
  | nil f => cases hn
  | cons hh hr ih =>
    have hhead := hh.count_le measure
    have htail := hr.count_le measure
    rw [List.flatMap_cons, List.mem_append] at hn
    rcases hn with hn | hn
    · rcases hh.decisions_cases measure with ⟨hnil, -⟩ | ⟨-, -, hone, hcount⟩
      · rw [hnil] at hn
        cases hn
      · rw [hone, List.mem_singleton] at hn
        omega
    · have := ih hn
      omega

/-- **No count is decided about twice**, and later steps decide about higher ones. -/
theorem Runs.pairwise_decisions (hr : Runs p.endless f hs f') (measure : Cadence.Measure) :
    (hs.flatMap (·.decisions measure)).Pairwise (· < ·) := by
  induction hr with
  | nil f => exact List.Pairwise.nil
  | cons hh hr ih =>
    rw [List.flatMap_cons, List.pairwise_append]
    refine ⟨?_, ih, ?_⟩
    · rcases hh.decisions_cases measure with ⟨hnil, -⟩ | ⟨-, -, hone, -⟩
      · rw [hnil]
        exact List.Pairwise.nil
      · rw [hone]
        exact List.pairwise_singleton _ _
    · intro m hm n hn
      have hlater := (hr.between_of_mem_decisions hn).1
      rcases hh.decisions_cases measure with ⟨hnil, -⟩ | ⟨-, -, hone, hcount⟩
      · rw [hnil] at hm
        cases hm
      · rw [hone, List.mem_singleton] at hm
        omega

/-- **No count is lost** of a measure that is not moved from outside. -/
theorem Runs.decidedOnce (hr : Runs p.endless f hs f') {measure : Cadence.Measure}
    (hinside : ∀ h ∈ hs, h.event.outside measure = 0) {n : Nat} (hlow : f.tally.count measure < n)
    (hhigh : n ≤ f'.tally.count measure) : DecidedOnce hs measure n := by
  induction hr with
  | nil f => omega
  | @cons f₁ f₂ f₃ h hs hh hr ih =>
    have hinside' : ∀ h' ∈ hs, h'.event.outside measure = 0 :=
      fun h' hmem => hinside h' (List.mem_cons_of_mem _ hmem)
    have hzero := hinside h List.mem_cons_self
    -- Either the count is still ahead after the first happening, or that one has decided about it.
    by_cases hnext : f₂.tally.count measure < n
    · obtain ⟨before, h', after, worker, rfl, hevent, hdecided, hothers⟩ := ih hinside' hnext hhigh
      refine ⟨h :: before, h', after, worker, rfl, hevent, hdecided, ?_⟩
      intro x hx
      rcases List.mem_cons.mp hx with rfl | hx
      · rcases hh.decisions_cases measure with ⟨hnil, -⟩ | ⟨-, -, hone, hcount⟩
        · rw [hnil]
          exact List.not_mem_nil
        · rw [hone, List.mem_singleton]
          omega
      · exact hothers x hx
    · rcases hh.decisions_cases measure with ⟨-, hcount⟩ | ⟨worker, hevent, hone, hcount⟩
      · omega
      · refine ⟨[], h, hs, worker, rfl, hevent, ?_, ?_⟩
        · rw [hone, List.mem_singleton]
          omega
        · intro h' hmem hdecided
          have hlater := hr.between_of_mem_decisions (List.mem_flatMap.mpr ⟨h', hmem, hdecided⟩)
          omega

theorem Runs.decisions_timeSteps (hr : Runs p.endless f hs f') :
    hs.flatMap (·.decisions .timeSteps) = (hs.flatMap Happening.seen).map Prod.fst := by
  induction hr with
  | nil f => rfl
  | cons hh _ ih =>
    rw [List.flatMap_cons, List.flatMap_cons, List.map_append, ih, hh.decisions_timeSteps]

theorem Runs.increasing (hr : Runs p.endless f hs f') :
    ((hs.flatMap Happening.seen).map Prod.fst).Pairwise (· < ·) := by
  rw [← hr.decisions_timeSteps]
  exact hr.pairwise_decisions .timeSteps

theorem Runs.timeSteps_eq (hr : Runs p.endless f hs f') :
    f'.tally.timeSteps = f.tally.timeSteps + (hs.flatMap Happening.observations).length +
      (hs.map (·.event.outside .timeSteps)).sum := by
  induction hr with
  | nil f => rfl
  | cons hh _ ih =>
    rw [ih, hh.timeSteps_eq, List.flatMap_cons, List.length_append, List.map_cons, List.sum_cons]
    omega

theorem Runs.episodes_eq (hr : Runs p.endless f hs f') :
    f'.tally.episodes =
      f.tally.episodes + (hs.flatMap Happening.observations).countP (·.episodeDone) +
        (hs.map (·.event.outside .episodes)).sum := by
  induction hr with
  | nil f => rfl
  | cons hh _ ih =>
    rw [ih, hh.episodes_eq, List.flatMap_cons, List.countP_append, List.map_cons, List.sum_cons]
    omega

/-! ### Updates -/

section

/-- There is one observation in what happens, if there is any, and it is decided about by its own counts. -/
theorem Happens.decisions_of_seen (hh : Happens p f h f') {n : Nat} {o : Observation}
    (hseen : (n, o) ∈ h.seen) (measure : Cadence.Measure) :
    h.decisions measure = (decisionCount measure h.tally o).toList := by
  have hone : h.seen = [(n, o)] := by
    rcases hh.steps_or_quiet with ⟨l, r, l', -, hsteps⟩ | ⟨-, hnil⟩
    · rw [Happening.seen] at hseen ⊢
      rcases hsteps.seen_cases with ⟨hnil, -⟩ | ⟨o', hone, -⟩
      · rw [hnil] at hseen
        cases hseen
      · rw [hone, List.mem_singleton] at hseen
        rw [hone, hseen]
    · rw [Happening.seen, hnil] at hseen
      cases hseen
  rw [Happening.decisions, Happening.observations, hone]
  cases hdecision : decisionCount measure h.tally o <;> simp [hdecision]

/-- A step that has observed asks for an update just where one is due, by the count that it decides about
and by what is buffered then. -/
theorem Happens.asks_iff (hh : Happens p f h f') {worker : Nat} {l' : Learner}
    (hevent : h.event = .step worker) (hl' : f'.learners[worker]? = some l') (hseen : h.seen ≠ []) :
    (∃ request answer, .update request answer ∈ h.exchanges) ↔
      ∃ n ∈ h.decisions p.agent.cadence.measure, p.agent.cadence.UpdateDue n (p.buffered l') := by
  obtain ⟨⟨number, o⟩, hmem⟩ := List.exists_mem_of_ne_nil _ hseen
  rcases hh.learner_cases worker with ⟨l, l₁, r, -, -, -, hl₁, hsteps⟩ | ⟨-, hquiet⟩
  · obtain rfl : l₁ = l' := Option.some.inj (hl₁.symm.trans hl')
    obtain ⟨htally, hobserved⟩ : h.tally = p.counted f.tally o ∧ l₁.observed = (l.taken o).observed := by
      rcases hsteps.seen_cases with ⟨hnil, -⟩ | ⟨o', hone, htally, hobserved⟩
      · exact absurd hnil hseen
      · rw [Happening.seen, hone, List.mem_singleton] at hmem
        cases hmem
        exact ⟨htally, hobserved⟩
    have hbuffered : p.buffered l₁ = p.buffered (l.taken o) := by
      rw [Plan.buffered, hobserved, Plan.buffered]
    rw [hsteps.asks_iff hmem, Plan.phase, phaseAt_eq_updating_iff, hh.decisions_of_seen hmem, hbuffered,
      Plan.decision, htally]
    simp only [Option.mem_toList]
  · rw [Happening.seen, (hquiet hevent).1] at hmem
    cases hmem

end

/-! ### The account of a run -/

/-- **The account of a run** in which some things happened to a fleet. -/
structure Accounted (p : Plan) (f : Fleet σ) (hs : List Happening) (f' : Fleet σ) : Prop where
  /-- A learner observes in the time step that it takes. -/
  taken : ∀ h ∈ hs, ∀ x ∈ h.seen, x.1 = h.tally.timeSteps
  /-- Later observations take later time steps. -/
  increasing : ((hs.flatMap Happening.seen).map Prod.fst).Pairwise (· < ·)
  /-- The time steps are those at the start, one for each observation, and those from outside. -/
  timeSteps : f'.tally.timeSteps = f.tally.timeSteps + (hs.flatMap Happening.observations).length +
    (hs.map (·.event.outside .timeSteps)).sum
  /-- So are the episodes, with one for each observation that ends one. -/
  episodes : f'.tally.episodes =
    f.tally.episodes + (hs.flatMap Happening.observations).countP (·.episodeDone) +
      (hs.map (·.event.outside .episodes)).sum
  /-- The time steps that are decided about are those that are taken. -/
  decisions : ∀ h ∈ hs, h.decisions .timeSteps = h.seen.map Prod.fst
  /-- Each count is decided about once if its measure does not move from outside. -/
  once : ∀ measure, (∀ h ∈ hs, h.event.outside measure = 0) →
    ∀ n, f.tally.count measure < n → n ≤ f'.tally.count measure → DecidedOnce hs measure n
  /-- No count is decided about twice if it does. -/
  never_twice : ∀ measure, (hs.flatMap (·.decisions measure)).Pairwise (· < ·)
  /-- A report tells the time step that was taken. -/
  told : ∀ h ∈ hs, ∀ report, h.outcome = some (.ok report) → ∃ o, (report.timeStep, o) ∈ h.seen
  /-- If its step decides about a count, it tells where the agent stands by that count. -/
  reported : ∀ h ∈ hs, ∀ report, h.outcome = some (.ok report) →
    ∀ n ∈ h.decisions p.agent.cadence.measure, report.phase = p.agent.cadence.phase n report.buffered
  /-- If its step decides about nothing, it tells whether enough is buffered. -/
  undecided : ∀ h ∈ hs, ∀ report, h.outcome = some (.ok report) →
    h.decisions p.agent.cadence.measure = [] →
    report.phase = if report.buffered < p.agent.cadence.threshold then .collecting else .ready
  /-- An update is for the time step that was taken, and its interval divides the count. -/
  updated : ∀ h ∈ hs, ∀ request answer, .update request answer ∈ h.exchanges →
    ∃ n ∈ h.decisions p.agent.cadence.measure, n % p.agent.cadence.interval = 0 ∧
      request = p.request h.tally.timeSteps
  /-- A learner changes in its own steps only. -/
  others : ∀ worker, (∀ h ∈ hs, h.event ≠ .step worker) →
    f'.learners[worker]? = f.learners[worker]?

/-- **Updates are made where they are due**: a step that has observed asks for one just if it decides about a
count of which an update is due, with what its learner has buffered. -/
def UpdatesWhereDue (p : Plan) (rt : Runtime σ) (f : Fleet σ) (es : List Event) : Prop :=
  ∀ (i : Nat) (h : Happening) (worker : Nat) (l : Learner), (f.run p rt es).1[i]? = some h →
    h.event = .step worker → (f.run p rt (es.take (i + 1))).2.learners[worker]? = some l → h.seen ≠ [] →
    ((∃ request answer, .update request answer ∈ h.exchanges) ↔
      ∃ n ∈ h.decisions p.agent.cadence.measure, p.agent.cadence.UpdateDue n (p.buffered l))

theorem Happens.reported (hh : Happens p f h f') {report : Report}
    (hreport : h.outcome = some (.ok report)) :
    (∀ n ∈ h.decisions p.agent.cadence.measure,
      report.phase = p.agent.cadence.phase n report.buffered) ∧
    (h.decisions p.agent.cadence.measure = [] →
      report.phase = if report.buffered < p.agent.cadence.threshold then .collecting else .ready) := by
  obtain ⟨o, _, hseen, -, hphase⟩ := hh.of_report hreport
  rw [hh.decisions_of_seen hseen, hphase]
  cases decisionCount p.agent.cadence.measure h.tally o with
  | none => exact ⟨nofun, fun _ => rfl⟩
  | some n =>
    refine ⟨fun m hm => ?_, nofun⟩
    rw [Option.toList_some, List.mem_singleton] at hm
    rw [hm]
    rfl

theorem accounted_of_endless (p : Plan) (rt : Runtime σ) (f : Fleet σ) (es : List Event) :
    Accounted p f (f.run p.endless rt es).1 (f.run p.endless rt es).2 := by
  have hr := runs_run p.endless rt f es
  refine ⟨?_, hr.increasing, hr.timeSteps_eq, hr.episodes_eq, ?_, ?_, hr.pairwise_decisions, ?_, ?_, ?_, ?_,
    fun _ => hr.learner_eq⟩
  · intro h hmem x hx
    obtain ⟨_, _, hh⟩ := hr.happens_of_mem hmem
    exact hh.taken hx
  · intro h hmem
    obtain ⟨_, _, hh⟩ := hr.happens_of_mem hmem
    exact hh.decisions_timeSteps
  · intro measure hinside n hlow hhigh
    exact hr.decidedOnce hinside hlow hhigh
  · intro h hmem report hreport
    obtain ⟨_, _, hh⟩ := hr.happens_of_mem hmem
    obtain ⟨o, _, hseen, -⟩ := hh.of_report hreport
    exact ⟨o, hseen⟩
  · intro h hmem report hreport
    obtain ⟨_, _, hh⟩ := hr.happens_of_mem hmem
    exact (hh.reported hreport).1
  · intro h hmem report hreport
    obtain ⟨_, _, hh⟩ := hr.happens_of_mem hmem
    exact (hh.reported hreport).2
  · intro h hmem request answer hx
    obtain ⟨_, _, hh⟩ := hr.happens_of_mem hmem
    obtain ⟨n, o, _, hseen, hdecision, hdue, hrequest⟩ := hh.of_update_mem hx
    refine ⟨n, ?_, hdue.2.2.1, hrequest⟩
    exact List.mem_filterMap.mpr ⟨o, List.mem_map.mpr ⟨_, hseen, rfl⟩, hdecision⟩

/-- **No time step is lost or taken twice**, whatever the learners are, in whatever order they take
their steps, and wherever these fail, as long as no count overflows; and who decides about a count makes
the update that is due then. -/
theorem accounted_run (p : Plan) (rt : Runtime σ) (f : Fleet σ) (es : List Event)
    (hcounts : f.NeverOverflows p rt es) :
    (f.run p rt es).1.map Happening.event = es ∧
      Accounted p f (f.run p rt es).1 (f.run p rt es).2 ∧ UpdatesWhereDue p rt f es := by
  refine ⟨events_run p rt f es, ?_, ?_⟩
  · rw [hcounts.run_eq]
    exact accounted_of_endless p rt f es
  · intro i h worker l hi hevent hl hseen
    exact (happens_of_getElem? hi).asks_iff hevent hl hseen

/-- Two learners take three steps, with an episode from outside in between. -/
theorem accounted_run_cartpole :
    ∃ a, Agent.decode .standard (Agent.cartpole 16) = .ok a ∧
      ∀ n, 0 < n → n ≤ 3 → DecidedOnce ((Fleet.start .zero 2 ()).run ⟨a, 100, .around⟩
        (Runtime.steady ⟨1, false⟩) [.step 0, .step 1, .endEpisode, .step 0]).1 .timeSteps n := by
  let es : List Event := [.step 0, .step 1, .endEpisode, .step 0]
  let rt := Runtime.steady ⟨1, false⟩
  obtain ⟨a, ha, hcounts, hinside, hend⟩ : ∃ a, Agent.decode .standard (Agent.cartpole 16) = .ok a ∧
      (∀ h ∈ ((Fleet.start .zero 2 ()).run ⟨a, 100, .endless⟩ rt es).1, h.Fits) ∧
      (∀ h ∈ ((Fleet.start .zero 2 ()).run ⟨a, 100, .around⟩ rt es).1, h.event.outside .timeSteps = 0) ∧
      ((Fleet.start .zero 2 ()).run ⟨a, 100, .around⟩ rt es).2.tally.timeSteps = 3 :=
    ⟨_, rfl, by decide, by decide, by decide⟩
  obtain ⟨-, haccount, -⟩ :=
    accounted_run ⟨a, 100, .around⟩ rt (Fleet.start .zero 2 ()) es fun _ => hcounts
  refine ⟨a, ha, fun n hlow hhigh => haccount.once .timeSteps hinside n hlow ?_⟩
  show n ≤ ((Fleet.start .zero 2 ()).run ⟨a, 100, .around⟩ rt es).2.tally.timeSteps
  rw [hend]
  exact hhigh

end Fleet

end Regimen.Training
