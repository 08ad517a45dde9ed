import Regimen.Proofs.Accounts

/-!
# Runs that continue

A run is a number of steps, up to the first that fails. Where a run has ended another one goes on, and it
makes no difference whether steps are asked for in one run or in several: **a run of `m + n` steps is a run of
`m` steps and, unless it fails, one of `n` steps after it** (`run_add`). What a run comes to is what its steps
come to (`Ends`, `run_iff_ends`): all of them are taken, or some are and the next one fails, and then the run
has left what this step leaves behind, and has asked for nothing else.

A runtime may go by all that it was asked before, since its state can be anything. So what is compared is not
only what a run answers, but the whole world that it leaves: the tally, the learner, the state of the runtime,
and what it was asked for.
-/

namespace Regimen.Training

variable {σ : Type} {p : Plan} {rt : Runtime σ} {m n : Nat} {w u w' : World σ} {reports : List Report}
  {e : Failure} {r : Except Failure Stats}

/-! ### One run and several -/

theorem run_succ (p : Plan) (rt : Runtime σ) (n : Nat) :
    run p rt (n + 1) = step p rt >>= fun _ => run p rt n := rfl

/-- **A run is one run after another**, the second unless the first fails. -/
theorem run_add (p : Plan) (rt : Runtime σ) (m n : Nat) :
    run p rt (m + n) = run p rt m >>= fun _ => run p rt n := by
  induction m with
  | zero =>
    rw [Nat.zero_add]
    rfl
  | succ m ih => rw [Nat.succ_add_eq_add_succ, Nat.add_succ, run_succ, run_succ, ih, bind_assoc]

theorem outcome_run_succ_of_error (h : (step p rt).outcome w = .error e) :
    (run p rt (n + 1)).outcome w = .error e := Attempt.outcome_bind_of_error h

theorem after_run_succ_of_error (h : (step p rt).outcome w = .error e) :
    (run p rt (n + 1)).after w = (step p rt).after w := Attempt.after_bind_of_error h

theorem outcome_run_succ_of_ok {report : Report} (h : (step p rt).outcome w = .ok report) :
    (run p rt (n + 1)).outcome w = (run p rt n).outcome ((step p rt).after w) :=
  Attempt.outcome_bind_of_ok h

theorem after_run_succ_of_ok {report : Report} (h : (step p rt).outcome w = .ok report) :
    (run p rt (n + 1)).after w = (run p rt n).after ((step p rt).after w) := Attempt.after_bind_of_ok h

/-! ### What a run comes to -/

/-- **Steps are taken** one after another and none of them fails. What they tell is listed first to last. -/
inductive Takes (p : Plan) (rt : Runtime σ) : World σ → List Report → World σ → Prop where
  /-- No step is taken. -/
  | nil (w : World σ) : Takes p rt w [] w
  /-- A step is taken before the others. -/
  | cons {w w' : World σ} {report : Report} {reports : List Report} :
      (step p rt).outcome w = .ok report → Takes p rt ((step p rt).after w) reports w' →
      Takes p rt w (report :: reports) w'

/-- **How a run of `n` steps ends**: with what answer, and what it leaves behind. -/
inductive Ends (p : Plan) (rt : Runtime σ) (n : Nat) (w : World σ) :
    Except Failure Stats → World σ → Prop where
  /-- All steps are taken, and the answer is what the learner has done by then. -/
  | completed {reports : List Report} {w' : World σ} : Takes p rt w reports w' → reports.length = n →
      Ends p rt n w (.ok w'.learner.stats) w'
  /-- Fewer are taken and the next one fails. That is the answer, and nothing is done after it. -/
  | failed {reports : List Report} {u : World σ} {e : Failure} : Takes p rt w reports u →
      reports.length < n → (step p rt).outcome u = .error e →
      Ends p rt n w (.error e) ((step p rt).after u)

theorem Takes.run_length (h : Takes p rt w reports w') :
    (run p rt reports.length).outcome w = .ok w'.learner.stats ∧
      (run p rt reports.length).after w = w' := by
  induction h with
  | nil w => exact ⟨rfl, rfl⟩
  | cons hstep _ ih =>
    rw [List.length_cons, outcome_run_succ_of_ok hstep, after_run_succ_of_ok hstep]
    exact ih

/-- The steps that are taken come first in any run that is long enough. -/
theorem Takes.run_add (h : Takes p rt w reports u) (n : Nat) :
    (run p rt (reports.length + n)).outcome w = (run p rt n).outcome u ∧
      (run p rt (reports.length + n)).after w = (run p rt n).after u := by
  obtain ⟨houtcome, hafter⟩ := h.run_length
  rw [Training.run_add, Attempt.outcome_bind_of_ok houtcome, Attempt.after_bind_of_ok houtcome, hafter]
  exact ⟨rfl, rfl⟩

theorem Ends.run_eq (h : Ends p rt n w r w') :
    (run p rt n).outcome w = r ∧ (run p rt n).after w = w' := by
  cases h with
  | completed htakes hlength =>
    subst hlength
    exact htakes.run_length
  | failed htakes hlength hstep =>
    obtain ⟨k, rfl⟩ := Nat.exists_eq_add_of_lt hlength
    rw [Nat.add_assoc, (htakes.run_add _).1, (htakes.run_add _).2]
    exact ⟨outcome_run_succ_of_error hstep, after_run_succ_of_error hstep⟩

/-- A step that is taken comes before the others. -/
theorem Ends.cons {report : Report} (hstep : (step p rt).outcome w = .ok report)
    (h : Ends p rt n ((step p rt).after w) r w') : Ends p rt (n + 1) w r w' := by
  cases h with
  | completed htakes hlength => exact .completed (.cons hstep htakes) (congrArg Nat.succ hlength)
  | failed htakes hlength hlast => exact .failed (.cons hstep htakes) (Nat.succ_lt_succ hlength) hlast

theorem ends_run (p : Plan) (rt : Runtime σ) (n : Nat) (w : World σ) :
    Ends p rt n w ((run p rt n).outcome w) ((run p rt n).after w) := by
  induction n generalizing w with
  | zero => exact .completed (.nil w) rfl
  | succ n ih =>
    cases hstep : (step p rt).outcome w with
    | error e =>
      rw [outcome_run_succ_of_error hstep, after_run_succ_of_error hstep]
      exact .failed (.nil w) (Nat.succ_pos n) hstep
    | ok report =>
      rw [outcome_run_succ_of_ok hstep, after_run_succ_of_ok hstep]
      exact (ih _).cons hstep

/-- **A run is its steps**, up to the first that fails. -/
theorem run_iff_ends :
    (run p rt n).outcome w = r ∧ (run p rt n).after w = w' ↔ Ends p rt n w r w' := by
  constructor
  · rintro ⟨rfl, rfl⟩
    exact ends_run p rt n w
  · exact Ends.run_eq

/-! ### What is kept -/

/-- **The counts of a learner are carried on** by what is asked for in between two worlds. -/
def World.CarriesOn (w w' : World σ) : Prop :=
  ∃ xs, w.Adds w' xs ∧ w'.learner.stats = w.learner.stats.after xs

theorem World.CarriesOn.trans {w'' : World σ} (h : w.CarriesOn w') (h' : w'.CarriesOn w'') :
    w.CarriesOn w'' := by
  obtain ⟨xs, hadds, hstats⟩ := h
  obtain ⟨ys, hadds', hstats'⟩ := h'
  exact ⟨xs ++ ys, hadds.trans hadds', by rw [hstats', hstats, Stats.after_append]⟩

theorem carriesOn_step (p : Plan) (rt : Runtime σ) (w : World σ) : w.CarriesOn ((step p rt).after w) := by
  obtain ⟨xs, hadds, hsteps⟩ := steps_step p rt w
  exact ⟨xs, hadds, hsteps.stats_eq⟩

/-- Wherever a run ends, nothing of what was done before is lost. -/
theorem carriesOn_run (p : Plan) (rt : Runtime σ) (n : Nat) (w : World σ) :
    w.CarriesOn ((run p rt n).after w) := by
  induction n generalizing w with
  | zero => exact ⟨[], w.adds_nil, rfl⟩
  | succ n ih =>
    cases hstep : (step p rt).outcome w with
    | error e =>
      rw [after_run_succ_of_error hstep]
      exact carriesOn_step p rt w
    | ok report =>
      rw [after_run_succ_of_ok hstep]
      exact (carriesOn_step p rt w).trans (ih _)

/-- **Runs continue one another.** A run of `m + n` steps is a run of `m` steps and, unless that fails, one of
`n` steps after it. A run is its steps up to the first that fails: its answer, and whatever it leaves behind,
are those of the steps. And a run that has ended, with a failure or without one, keeps what was counted
before, and so does another run that goes on from there. -/
theorem runs_continue (p : Plan) (rt : Runtime σ) (w : World σ) :
    (∀ m n, run p rt (m + n) = do
      let _ ← run p rt m
      run p rt n) ∧
    (∀ n r w', (run p rt n).outcome w = r ∧ (run p rt n).after w = w' ↔ Ends p rt n w r w') ∧
    ∀ m n, w.CarriesOn ((run p rt m).after w) ∧
      w.CarriesOn ((run p rt n).after ((run p rt m).after w)) := by
  refine ⟨run_add p rt, fun n r w' => run_iff_ends, fun m n => ?_⟩
  have hfirst := carriesOn_run p rt m w
  exact ⟨hfirst, hfirst.trans (carriesOn_run p rt n _)⟩

/-- A runtime whose update fails in one time step. -/
def Runtime.stumbling (timeStep : Nat) : Runtime Unit :=
  { Runtime.steady ⟨1, false⟩ with
    update request s := (if request.timeStep = timeStep then .error (.device "busy") else .ok 0.5, s) }

/-- A world in which nothing was counted and nothing was done yet. -/
def World.fresh : World Unit := ⟨.zero, .new, (), []⟩

/-- The second of four steps fails. It leaves what the step before it and its own observation have done, and
another run goes on from there. -/
theorem runs_continue_stumbling :
    ∃ a, Agent.decode .standard Agent.pendulum = .ok a ∧
      ∃ v, Ends ⟨a, 100, .around⟩ (.stumbling 2) 4 .fresh (.error (.device "busy")) v ∧
        v = (step ⟨a, 100, .around⟩ (.stumbling 2)).after ((run ⟨a, 100, .around⟩ (.stumbling 2) 1).after .fresh) ∧
        v.learner.stats = ⟨2, 1, 0, some 0.5⟩ ∧
        ∃ w', Ends ⟨a, 100, .around⟩ (.stumbling 2) 1 v (.ok ⟨3, 2, 1, some 0.5⟩) w' ∧
          World.fresh.CarriesOn w' := by
  obtain ⟨a, ha, hone, hsecond, hstats, hlater⟩ : ∃ a, Agent.decode .standard Agent.pendulum = .ok a ∧
      (run ⟨a, 100, .around⟩ (.stumbling 2) 1).outcome .fresh = .ok ⟨1, 1, 0, some 0.5⟩ ∧
      (step ⟨a, 100, .around⟩ (.stumbling 2)).outcome ((run ⟨a, 100, .around⟩ (.stumbling 2) 1).after .fresh) =
        .error (.device "busy") ∧
      ((run ⟨a, 100, .around⟩ (.stumbling 2) 4).after .fresh).learner.stats = ⟨2, 1, 0, some 0.5⟩ ∧
      (run ⟨a, 100, .around⟩ (.stumbling 2) 1).outcome ((run ⟨a, 100, .around⟩ (.stumbling 2) 4).after .fresh) =
        .ok ⟨3, 2, 1, some 0.5⟩ :=
    ⟨_, rfl, rfl, rfl, rfl, rfl⟩
  obtain ⟨hadd, hends, hkept⟩ := runs_continue ⟨a, 100, .around⟩ (.stumbling 2) .fresh
  obtain ⟨-, hends', -⟩ := runs_continue ⟨a, 100, .around⟩ (.stumbling 2)
    ((run ⟨a, 100, .around⟩ (.stumbling 2) 4).after .fresh)
  have hfirst : (run ⟨a, 100, .around⟩ (.stumbling 2) 4).outcome .fresh = .error (.device "busy") := by
    rw [hadd 1 3]
    exact (Attempt.outcome_bind_of_ok hone).trans (outcome_run_succ_of_error hsecond)
  have hlast : (run ⟨a, 100, .around⟩ (.stumbling 2) 4).after .fresh =
      (step ⟨a, 100, .around⟩ (.stumbling 2)).after ((run ⟨a, 100, .around⟩ (.stumbling 2) 1).after .fresh) := by
    rw [hadd 1 3]
    exact (Attempt.after_bind_of_ok hone).trans (after_run_succ_of_error hsecond)
  refine ⟨a, ha, _, (hends 4 _ _).mp ⟨hfirst, rfl⟩, hlast, hstats, _, (hends' 1 _ _).mp ⟨hlater, rfl⟩, ?_⟩
  exact (hkept 4 1).2

end Regimen.Training
