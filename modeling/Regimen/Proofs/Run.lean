import Regimen.Proofs.Step

/-!
# What happens to a fleet

`Happens` lists what an event can do to a fleet, and `Runs` puts happenings one after the other. **What
`Fleet.run` computes is such a run** (`runs_run`), so that a fact about all runs is proved by induction
on `Runs`, with one case for each kind of event.

What an outsider can tell about a step is read off its exchanges: what it called for
(`Exchange.call`), what it observed (`Happening.seen`), and what failed (`Exchange.failure?`).
-/

namespace Regimen.Training

/-! ### Exchanges from outside -/

/-- What a runtime is called for. -/
inductive Call where
  /-- To observe the environment in a time step. -/
  | observe (timeStep : Nat)
  /-- To update the agent. -/
  | update (request : Request)
  /-- To bring the target network up to date, after so many steps or updates. -/
  | sync (count : Nat)

namespace Exchange

/-- What the runtime was called for. -/
def call : Exchange → Call
  | observe timeStep _ => .observe timeStep
  | update request _ => .update request
  | sync count _ => .sync count

/-- The failure that was answered. -/
def failure? : Exchange → Option Failure
  | observe _ (.error f) | update _ (.error f) | sync _ (.error f) => some f
  | _ => none

/-- What was observed, and in which time step. -/
def seen? : Exchange → Option (Nat × Observation)
  | observe timeStep (.ok o) => some (timeStep, o)
  | _ => none

end Exchange

namespace Happening

/-- What was observed, and in which time steps. -/
def seen (h : Happening) : List (Nat × Observation) := h.exchanges.filterMap Exchange.seen?

/-- What was observed. -/
def observations (h : Happening) : List Observation := h.seen.map Prod.snd

/-- Nothing failed. -/
def Smooth (h : Happening) : Prop := ∀ x ∈ h.exchanges, x.failure? = none

instance (h : Happening) : Decidable h.Smooth := inferInstanceAs (Decidable (∀ _ ∈ _, _))

end Happening

/-- A runtime that always observes the same and never fails. -/
def Runtime.steady (o : Observation) : Runtime Unit where
  observe _ s := (.ok o, s)
  update _ s := (.ok 0.5, s)
  sync _ s := (.ok (), s)

/-! ### Steps from outside -/

section

variable {p : Plan} {t t' : Tally} {l l' l₁ : Learner} {xs : List Exchange} {phase : Cadence.Phase}
  {timeStep : Nat} {c : Cadence} {counts : Option (Nat × Nat)} {request : Request}
  {answer : Except Failure Float}

theorem Updates.seen_eq_nil {r : Except Failure (Option Float)} (h : Updates p timeStep phase l xs r l') :
    xs.filterMap Exchange.seen? = [] := by
  cases h <;> rfl

theorem Updates.observed_eq {r : Except Failure (Option Float)}
    (h : Updates p timeStep phase l xs r l') : l'.observed = l.observed := by
  cases h with
  | skipped _ => rfl
  | failed _ _ => rfl
  | done loss _ => exact l.observed_updated loss

/-- An update is asked for in the phase for it, and nothing else is. -/
theorem Updates.eq_of_mem {r : Except Failure (Option Float)} {x : Exchange}
    (h : Updates p timeStep phase l xs r l') (hx : x ∈ xs) :
    phase = .updating ∧ ∃ answer, x = .update (p.request timeStep) answer := by
  cases h with
  | skipped _ => cases hx
  | failed f hphase => exact ⟨hphase, _, List.mem_singleton.mp hx⟩
  | done loss hphase => exact ⟨hphase, _, List.mem_singleton.mp hx⟩

theorem Syncs.seen_eq_nil {r : Except Failure Bool} (h : Syncs c counts l xs r l') :
    xs.filterMap Exchange.seen? = [] := by
  cases h <;> rfl

theorem Syncs.observed_eq {r : Except Failure Bool} (h : Syncs c counts l xs r l') :
    l'.observed = l.observed := by
  cases h with
  | skipped _ => rfl
  | failed _ _ _ _ _ => rfl
  | done _ _ _ _ => exact l.observed_synced

/-- The target network is asked for where it is due, and nothing else is. -/
theorem Syncs.eq_of_mem {r : Except Failure Bool} {x : Exchange} (h : Syncs c counts l xs r l')
    (hx : x ∈ xs) :
    ∃ decided told reply, counts = some (decided, told) ∧ c.SyncDue decided ∧ x = .sync told reply := by
  cases h with
  | skipped _ => cases hx
  | failed decided told f hcounts hdue =>
    exact ⟨decided, told, _, hcounts, hdue, List.mem_singleton.mp hx⟩
  | done decided told hcounts hdue =>
    exact ⟨decided, told, _, hcounts, hdue, List.mem_singleton.mp hx⟩

/-- A step that observes goes on with an update and with the target network, and does not get to
either if something fails before. -/
theorem Steps.parts {r : Except Failure Report} (h : Steps p t l xs r t' l') :
    (∃ f, xs = [.observe (p.nextStep t) (.error f)] ∧ t' = t ∧ l' = l) ∨
    ∃ o us ss r₁ l₁ counts r₂, xs = .observe (p.nextStep t) (.ok o) :: (us ++ ss) ∧
      t' = p.counted t o ∧ Updates p (p.nextStep t) (p.phase t l o) (l.taken o) us r₁ l₁ ∧
      Syncs p.agent.cadence counts l₁ ss r₂ l' := by
  cases h with
  | unobserved f => exact .inl ⟨f, rfl, rfl, rfl⟩
  | notUpdated o f hu =>
    refine .inr ⟨o, _, [], _, _, none, .ok false, ?_, rfl, hu, .skipped nofun⟩
    rw [List.append_nil]
  | notSynced o loss f hu hs => exact .inr ⟨o, _, _, _, _, _, _, rfl, rfl, hu, hs⟩
  | completed o loss synced hu hs => exact .inr ⟨o, _, _, _, _, _, _, rfl, rfl, hu, hs⟩

/-- A step begins with the observation of the next time step. -/
theorem Steps.begins {r : Except Failure Report} (h : Steps p t l xs r t' l') :
    ∃ reply rest, xs = .observe (p.nextStep t) reply :: rest := by
  rcases h.parts with ⟨f, rfl, -⟩ | ⟨o, us, ss, _, _, _, _, rfl, -⟩
  · exact ⟨_, _, rfl⟩
  · exact ⟨_, _, rfl⟩

/-- What a step observes it counts, and it keeps the records; without an observation nothing has
changed. -/
theorem Steps.seen_cases {r : Except Failure Report} (h : Steps p t l xs r t' l') :
    (xs.filterMap Exchange.seen? = [] ∧ t' = t ∧ l' = l) ∨
    ∃ o, xs.filterMap Exchange.seen? = [(p.nextStep t, o)] ∧ t' = p.counted t o ∧
      l'.observed = (l.taken o).observed := by
  rcases h.parts with ⟨f, rfl, rfl, rfl⟩ | ⟨o, us, ss, _, _, _, _, rfl, rfl, hu, hs⟩
  · exact .inl ⟨rfl, rfl, rfl⟩
  · refine .inr ⟨o, ?_, rfl, hs.observed_eq.trans hu.observed_eq⟩
    show _ :: _ = _
    rw [List.filterMap_append, hu.seen_eq_nil, hs.seen_eq_nil]
    rfl

/-- **What a step asks for** belongs to one of its three parts. -/
theorem Steps.mem_cases {r : Except Failure Report} {x : Exchange} (h : Steps p t l xs r t' l')
    (hx : x ∈ xs) :
    (∃ reply, x = .observe (p.nextStep t) reply) ∨
    (∃ o reply, x = .update (p.request (p.nextStep t)) reply ∧ p.phase t l o = .updating ∧
      (p.nextStep t, o) ∈ xs.filterMap Exchange.seen? ∧ t' = p.counted t o) ∨
    ∃ decided told reply, x = .sync told reply ∧ p.agent.cadence.SyncDue decided := by
  rcases h.parts with ⟨f, rfl, -, -⟩ | ⟨o, us, ss, r₁, l₁, counts, r₂, rfl, htally, hu, hs⟩
  · exact .inl ⟨_, List.mem_singleton.mp hx⟩
  · rcases List.mem_cons.mp hx with hx | hx
    · exact .inl ⟨_, hx⟩
    · rcases List.mem_append.mp hx with hx | hx
      · obtain ⟨hphase, reply, rfl⟩ := hu.eq_of_mem hx
        exact .inr (.inl ⟨o, reply, rfl, hphase, List.mem_cons_self, htally⟩)
      · obtain ⟨decided, told, reply, -, hdue, rfl⟩ := hs.eq_of_mem hx
        exact .inr (.inr ⟨decided, told, reply, rfl, hdue⟩)

/-- A step observes in the next time step. -/
theorem Steps.of_observe_mem {r : Except Failure Report} {n : Nat}
    {reply : Except Failure Observation} (h : Steps p t l xs r t' l') (hx : .observe n reply ∈ xs) :
    n = p.nextStep t := by
  rcases h.mem_cases hx with ⟨_, hx⟩ | ⟨_, _, hx, -⟩ | ⟨_, _, _, hx, -⟩ <;> cases hx
  rfl

/-- An update is asked for in the phase for it only, and for the time step that was observed. -/
theorem Steps.of_update_mem {r : Except Failure Report} (h : Steps p t l xs r t' l')
    (hx : .update request answer ∈ xs) :
    ∃ o, (p.nextStep t, o) ∈ xs.filterMap Exchange.seen? ∧ t' = p.counted t o ∧
      p.phase t l o = .updating ∧ request = p.request (p.nextStep t) := by
  rcases h.mem_cases hx with ⟨_, hx⟩ | ⟨o, _, hx, hphase, hseen, htally⟩ | ⟨_, _, _, hx, -⟩ <;> cases hx
  exact ⟨o, hseen, htally, hphase, rfl⟩

/-- A step that observes asks for an update just in the phase for it. -/
theorem Steps.asks_iff {r : Except Failure Report} {n : Nat} {o : Observation}
    (h : Steps p t l xs r t' l') (hseen : (n, o) ∈ xs.filterMap Exchange.seen?) :
    (∃ request answer, .update request answer ∈ xs) ↔ p.phase t l o = .updating := by
  rcases h.parts with ⟨f, rfl, -⟩ | ⟨o', us, ss, _, _, _, _, rfl, -, hu, hs⟩
  · cases hseen
  · have hone : (Exchange.observe (p.nextStep t) (.ok o') :: (us ++ ss)).filterMap Exchange.seen? =
        [(p.nextStep t, o')] := by
      show _ :: _ = _
      rw [List.filterMap_append, hu.seen_eq_nil, hs.seen_eq_nil]
      rfl
    rw [hone, List.mem_singleton] at hseen
    cases hseen
    constructor
    · rintro ⟨request, answer, hx⟩
      rcases List.mem_cons.mp hx with hx | hx
      · cases hx
      · rcases List.mem_append.mp hx with hx | hx
        · exact (hu.eq_of_mem hx).1
        · obtain ⟨_, _, _, -, -, hx⟩ := hs.eq_of_mem hx
          cases hx
    · intro hphase
      cases hu with
      | skipped hnot => exact absurd hphase hnot
      | failed f _ => exact ⟨_, _, List.mem_cons_of_mem _ List.mem_cons_self⟩
      | done loss _ => exact ⟨_, _, List.mem_cons_of_mem _ List.mem_cons_self⟩

/-- The target network is asked for only where it is due. -/
theorem Steps.due_of_sync_mem {r : Except Failure Report} {n : Nat} {reply : Except Failure Unit}
    (h : Steps p t l xs r t' l') (hx : .sync n reply ∈ xs) :
    ∃ decided, p.agent.cadence.SyncDue decided := by
  rcases h.mem_cases hx with ⟨_, hx⟩ | ⟨_, _, hx, -⟩ | ⟨decided, _, _, hx, hdue⟩ <;> cases hx
  exact ⟨decided, hdue⟩

/-- A report is about the time step that was observed. -/
theorem Steps.of_ok {report : Report} (h : Steps p t l xs (.ok report) t' l') :
    ∃ o, (p.nextStep t, o) ∈ xs.filterMap Exchange.seen? ∧ t' = p.counted t o ∧
      report.timeStep = p.nextStep t ∧ report.buffered = p.buffered (l.taken o) ∧
      report.phase = p.phase t l o := by
  cases h with
  | completed o loss synced hu hs => exact ⟨o, List.mem_cons_self, rfl, rfl, rfl, rfl⟩

end

/-! ### Happenings -/

namespace Fleet

variable {σ : Type}

/-- **What an event can do** to a fleet. -/
inductive Happens (p : Plan) (f : Fleet σ) : Happening → Fleet σ → Prop where
  /-- A learner takes a step. -/
  | stepped {worker : Nat} {l l' : Learner} {xs : List Exchange} {r : Except Failure Report}
      {t : Tally} (s : σ) : f.learners[worker]? = some l → Steps p f.tally l xs r t l' →
      Happens p f ⟨.step worker, xs, some r, t⟩ ⟨t, f.learners.set worker l', s⟩
  /-- The learner is not there. -/
  | missing {worker : Nat} : f.learners[worker]? = none →
      Happens p f ⟨.step worker, [], none, f.tally⟩ f
  /-- The tally moves from outside. -/
  | advanced (n : Nat) :
      Happens p f ⟨.advance n, [], none, f.tally.advance n p.counting⟩
        { f with tally := f.tally.advance n p.counting }
  /-- The tally counts an episode from outside. -/
  | ended :
      Happens p f ⟨.endEpisode, [], none, f.tally.endEpisode p.counting⟩
        { f with tally := f.tally.endEpisode p.counting }

theorem happen_step_of_some {f : Fleet σ} {worker : Nat} {l : Learner} (p : Plan) (rt : Runtime σ)
    (h : f.learners[worker]? = some l) :
    f.happen p rt (.step worker) =
      let w : World σ := ⟨f.tally, l, f.runtime, []⟩
      let w' := (step p rt).after w
      (⟨.step worker, w'.exchanges, some ((step p rt).outcome w), w'.tally⟩, f.restore worker w') := by
  simp only [happen, act, world?, h, Option.map_some]
  rfl

theorem happen_step_of_none {f : Fleet σ} {worker : Nat} (p : Plan) (rt : Runtime σ)
    (h : f.learners[worker]? = none) :
    f.happen p rt (.step worker) = (⟨.step worker, [], none, f.tally⟩, f) := by
  simp only [happen, act, world?, h, Option.map_none]

/-- Learners that start have done nothing. -/
theorem eq_new_of_start {start : Tally} {workers : Nat} {s : σ} {worker : Nat} {l : Learner}
    (hl : (Fleet.start start workers s).learners[worker]? = some l) : l = .new :=
  List.eq_of_mem_replicate (List.mem_of_getElem? hl)

/-- The learner that has taken a step is in the place of the one that was there. -/
theorem getElem?_set_of_some {ls : List Learner} {worker : Nat} {l : Learner}
    (hl : ls[worker]? = some l) (l' : Learner) : (ls.set worker l')[worker]? = some l' := by
  rw [List.getElem?_set_self', hl]
  rfl

theorem happens_happen (p : Plan) (rt : Runtime σ) (f : Fleet σ) (e : Event) :
    Happens p f (f.happen p rt e).1 (f.happen p rt e).2 := by
  cases e with
  | advance n => exact .advanced n
  | endEpisode => exact .ended
  | step worker =>
    cases hl : f.learners[worker]? with
    | none =>
      rw [happen_step_of_none p rt hl]
      exact .missing hl
    | some l =>
      rw [happen_step_of_some p rt hl]
      obtain ⟨xs, hadds, hsteps⟩ := steps_step p rt ⟨f.tally, l, f.runtime, []⟩
      obtain rfl : _ = xs := hadds
      exact .stepped _ hl hsteps

theorem event_happen (p : Plan) (rt : Runtime σ) (f : Fleet σ) (e : Event) :
    (f.happen p rt e).1.event = e := by
  cases e with
  | advance n => rfl
  | endEpisode => rfl
  | step worker =>
    cases hl : f.learners[worker]? with
    | none => rw [happen_step_of_none p rt hl]
    | some l => rw [happen_step_of_some p rt hl]

section

variable {p : Plan} {f f' : Fleet σ} {h : Happening}

/-- What happens is quiet unless it is a step. -/
theorem Happens.steps_or_quiet (hh : Happens p f h f') :
    (∃ l r l', h.outcome = some r ∧ Steps p f.tally l h.exchanges r h.tally l') ∨
      h.outcome = none ∧ h.exchanges = [] := by
  cases hh with
  | stepped s hl hsteps => exact .inl ⟨_, _, _, rfl, hsteps⟩
  | missing => exact .inr ⟨rfl, rfl⟩
  | advanced => exact .inr ⟨rfl, rfl⟩
  | ended => exact .inr ⟨rfl, rfl⟩

/-- What happens is a step of a learner, or it leaves the learner alone. -/
theorem Happens.learner_cases (hh : Happens p f h f') (worker : Nat) :
    (∃ l l' r, h.event = .step worker ∧ h.outcome = some r ∧ f.learners[worker]? = some l ∧
      f'.learners[worker]? = some l' ∧ Steps p f.tally l h.exchanges r h.tally l') ∨
    f'.learners[worker]? = f.learners[worker]? ∧
      (h.event = .step worker → h.exchanges = [] ∧ h.outcome = none) := by
  cases hh with
  | missing => exact .inr ⟨rfl, fun _ => ⟨rfl, rfl⟩⟩
  | advanced n => exact .inr ⟨rfl, nofun⟩
  | ended => exact .inr ⟨rfl, nofun⟩
  | @stepped stepping l l' xs r t s hl hsteps =>
    by_cases heq : stepping = worker
    · subst heq
      exact .inl ⟨l, l', r, rfl, rfl, hl, getElem?_set_of_some hl l', hsteps⟩
    · refine .inr ⟨List.getElem?_set_ne heq, fun hevent => ?_⟩
      exact absurd (Event.step.inj hevent) heq

/-- Where the agent stands is decided by the count of the step and by what is buffered then. -/
theorem Happens.of_report (hh : Happens p f h f') {report : Report}
    (hreport : h.outcome = some (.ok report)) :
    ∃ o l, (report.timeStep, o) ∈ h.seen ∧ report.buffered = p.buffered l ∧ report.phase =
      phaseAt p.agent.cadence (decisionCount p.agent.cadence.measure h.tally o) report.buffered := by
  rcases hh.steps_or_quiet with ⟨l, r, l', houtcome, hsteps⟩ | ⟨hnone, -⟩
  · rw [houtcome] at hreport
    cases hreport
    obtain ⟨o, hseen, htally, hnumber, hbuffered, hphase⟩ := hsteps.of_ok
    refine ⟨o, l.taken o, ?_, hbuffered, ?_⟩
    · rw [hnumber]
      exact hseen
    · rw [hphase, hbuffered, htally]
      rfl
  · rw [hnone] at hreport
    cases hreport

/-- An update is due by the count of the step that asks for it and by what is buffered then. -/
theorem Happens.of_update_mem (hh : Happens p f h f') {request : Request}
    {answer : Except Failure Float} (hx : .update request answer ∈ h.exchanges) :
    ∃ n o l, (h.tally.timeSteps, o) ∈ h.seen ∧
      decisionCount p.agent.cadence.measure h.tally o = some n ∧
      p.agent.cadence.UpdateDue n (p.buffered l) ∧ request = p.request h.tally.timeSteps := by
  rcases hh.steps_or_quiet with ⟨l, r, l', -, hsteps⟩ | ⟨-, hnil⟩
  · obtain ⟨o, hseen, htally, hphase, hrequest⟩ := hsteps.of_update_mem hx
    obtain ⟨n, hdecision, hdue⟩ := phaseAt_eq_updating_iff.mp hphase
    rw [← p.timeSteps_counted f.tally o, ← htally] at hseen hrequest
    rw [Plan.decision, ← htally] at hdecision
    exact ⟨n, o, l.taken o, hseen, hdecision, hdue, hrequest⟩
  · rw [hnil] at hx
    cases hx

theorem Happens.due_of_sync_mem (hh : Happens p f h f') {n : Nat} {reply : Except Failure Unit}
    (hx : .sync n reply ∈ h.exchanges) : ∃ decided, p.agent.cadence.SyncDue decided := by
  rcases hh.steps_or_quiet with ⟨l, r, l', -, hsteps⟩ | ⟨-, hnil⟩
  · exact hsteps.due_of_sync_mem hx
  · rw [hnil] at hx
    cases hx

end

theorem run_cons (p : Plan) (rt : Runtime σ) (f : Fleet σ) (e : Event) (es : List Event) :
    f.run p rt (e :: es) = ((f.happen p rt e).1 :: ((f.happen p rt e).2.run p rt es).1,
      ((f.happen p rt e).2.run p rt es).2) := rfl

/-- Happenings one after the other. -/
inductive Runs (p : Plan) : Fleet σ → List Happening → Fleet σ → Prop where
  /-- Nothing happens. -/
  | nil (f : Fleet σ) : Runs p f [] f
  /-- Something happens first. -/
  | cons {f f' f'' : Fleet σ} {h : Happening} {hs : List Happening} : Happens p f h f' →
      Runs p f' hs f'' → Runs p f (h :: hs) f''

/-- **What happens to a fleet is a run.** -/
theorem runs_run (p : Plan) (rt : Runtime σ) (f : Fleet σ) (es : List Event) :
    Runs p f (f.run p rt es).1 (f.run p rt es).2 := by
  induction es generalizing f with
  | nil => exact .nil f
  | cons e es ih => exact .cons (happens_happen p rt f e) (ih _)

theorem events_run (p : Plan) (rt : Runtime σ) (f : Fleet σ) (es : List Event) :
    (f.run p rt es).1.map Happening.event = es := by
  induction es generalizing f with
  | nil => rfl
  | cons e es ih =>
    show (f.happen p rt e).1.event :: _ = _
    rw [event_happen]
    exact congrArg _ (ih _)

/-- What happens in the beginning does not depend on what comes later. -/
theorem take_run (p : Plan) (rt : Runtime σ) (f : Fleet σ) (es : List Event) (i : Nat) :
    (f.run p rt es).1.take i = (f.run p rt (es.take i)).1 := by
  induction es generalizing f i with
  | nil => simp [run]
  | cons e es ih =>
    cases i with
    | zero => rfl
    | succ i => exact congrArg (_ :: ·) (ih _ i)

/-- A happening of a run finds the fleet that the happenings before it have left behind, and leaves the one
that those after it find. -/
theorem happens_of_getElem? {p : Plan} {rt : Runtime σ} {f : Fleet σ} {es : List Event} {i : Nat}
    {h : Happening} (hi : (f.run p rt es).1[i]? = some h) :
    Happens p (f.run p rt (es.take i)).2 h (f.run p rt (es.take (i + 1))).2 := by
  induction es generalizing f i with
  | nil => cases hi
  | cons e es ih =>
    cases i with
    | zero =>
      cases hi
      exact happens_happen p rt f e
    | succ i => exact ih hi

/-- What happens where a single learner takes a number of steps. -/
def solo (p : Plan) (rt : Runtime σ) (start : Tally) (s : σ) (n : Nat) : List Happening :=
  ((Fleet.start start 1 s).run p rt (List.replicate n (.step 0))).1

theorem runs_solo (p : Plan) (rt : Runtime σ) (start : Tally) (s : σ) (n : Nat) :
    ∃ f', Runs p (Fleet.start start 1 s) (solo p rt start s n) f' := ⟨_, runs_run p rt _ _⟩

theorem length_solo (p : Plan) (rt : Runtime σ) (start : Tally) (s : σ) (n : Nat) :
    (solo p rt start s n).length = n := by
  have hevents := events_run p rt (Fleet.start start 1 s) (List.replicate n (.step 0))
  have hlength := congrArg List.length hevents
  rwa [List.length_map, List.length_replicate] at hlength

/-- A run begins with a shorter one. -/
theorem take_solo (p : Plan) (rt : Runtime σ) (start : Tally) (s : σ) {m n : Nat} (h : m ≤ n) :
    (solo p rt start s n).take m = solo p rt start s m := by
  rw [solo, take_run, List.take_replicate, Nat.min_eq_left h]
  rfl

theorem event_of_mem_solo {p : Plan} {rt : Runtime σ} {start : Tally} {s : σ} {n : Nat} {h : Happening}
    (hmem : h ∈ solo p rt start s n) : h.event = .step 0 := by
  have hevents := events_run p rt (Fleet.start start 1 s) (List.replicate n (.step 0))
  refine List.eq_of_mem_replicate (n := n) ?_
  rw [← hevents]
  exact List.mem_map_of_mem hmem

variable {p : Plan} {f f' : Fleet σ} {h : Happening} {hs : List Happening}

theorem Runs.happens_of_mem (hr : Runs p f hs f') (hmem : h ∈ hs) :
    ∃ f₁ f₂ : Fleet σ, Happens p f₁ h f₂ := by
  induction hr with
  | nil f => cases hmem
  | cons hh _ ih =>
    rcases List.mem_cons.mp hmem with rfl | hmem
    · exact ⟨_, _, hh⟩
    · exact ih hmem

/-- A learner changes in its own steps only. -/
theorem Runs.learner_eq (hr : Runs p f hs f') {worker : Nat}
    (hother : ∀ h ∈ hs, h.event ≠ .step worker) : f'.learners[worker]? = f.learners[worker]? := by
  induction hr with
  | nil f => rfl
  | cons hh _ ih =>
    rw [ih fun h hmem => hother h (List.mem_cons_of_mem _ hmem)]
    rcases hh.learner_cases worker with ⟨_, _, _, hevent, -⟩ | ⟨heq, -⟩
    · exact absurd hevent (hother _ List.mem_cons_self)
    · exact heq

end Fleet

end Regimen.Training
