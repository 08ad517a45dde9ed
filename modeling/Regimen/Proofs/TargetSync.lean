import Mathlib.Data.Nat.ModEq
import Regimen.Proofs.Run
import Regimen.Proofs.WellFormed

/-!
# The target network follows the updates

An agent may bring its target network up to date by the number of its updates. Each learner counts its
own: those that succeed, from one. **The network follows the second update and each one an interval
later** (`followsUpdates_run`), in the same step, right after the update, and it is told which one that
was.

What decides is the learner's count before the update. It is the number of losses that the learner was
answered so far (`Fleet.Runs.updates_eq`), so that nothing else has an influence: no failure, no other
learner, and no tally.
-/

namespace Regimen.Training

/-- The loss that was answered. -/
def Exchange.loss? : Exchange → Option Float
  | update _ (.ok loss) => some loss
  | _ => none

/-- The losses that a learner was answered: one where it has taken a step whose update succeeded. -/
def Happening.lossesOf (h : Happening) (worker : Nat) : List Float :=
  if h.event = .step worker then h.exchanges.filterMap Exchange.loss? else []

/-- The number of updates of a learner that succeeded. -/
def updatesOf (worker : Nat) (hs : List Happening) : Nat := (hs.flatMap (·.lossesOf worker)).length

/-- **The target network follows the updates** in a step whose update is the learner's one of a number,
if it succeeds. -/
structure Happening.FollowsUpdates (h : Happening) (interval number : Nat) : Prop where
  /-- The network is asked for when the update succeeds and its number is one of those. -/
  asked_iff : (∃ told reply, .sync told reply ∈ h.exchanges) ↔
    (∃ request loss, .update request (.ok loss) ∈ h.exchanges) ∧ number ≡ 2 [MOD interval]
  /-- This comes right after the update, and nothing else does. The number is told. -/
  after_update : ∀ told reply, .sync told reply ∈ h.exchanges → told = number ∧
    ∃ timeStep o request loss, h.exchanges =
      [.observe timeStep (.ok o), .update request (.ok loss), .sync number reply]
  /-- The numbers are 2, and from there on those at the interval; with an interval of 1 they are all. -/
  numbers : number ≡ 2 [MOD interval] ↔ interval = 1 ∨ ∃ k, number = 2 + k * interval

/-! ### Numbers of updates -/

/-- The numbers that are congruent to two are two and those at the interval after it. The number one
is none of them unless all are. -/
theorem modEq_two_iff {interval updates : Nat} :
    updates + 1 ≡ 2 [MOD interval] ↔ interval = 1 ∨ ∃ k, updates + 1 = 2 + k * interval := by
  constructor
  · intro h
    by_cases hone : interval = 1
    · exact .inl hone
    · refine .inr ?_
      have hpos : updates ≠ 0 := by
        rintro rfl
        exact hone (Nat.dvd_one.mp ((Nat.modEq_iff_dvd' (by omega)).mp h))
      obtain ⟨k, hk⟩ := (Nat.modEq_iff_dvd' (by omega)).mp h.symm
      refine ⟨k, ?_⟩
      rw [Nat.mul_comm]
      omega
  · rintro (rfl | ⟨k, hk⟩)
    · exact Nat.modEq_one
    · rw [hk]
      exact Nat.add_mul_mod_self_right _ _ _

/-- The count before an update decides as the number of the update does. -/
theorem syncDue_iff {c : Cadence} {interval : Nat} (hsync : c.targetSync = some ⟨interval, .updates⟩)
    (updates : Nat) : c.SyncDue updates ↔ updates + 1 ≡ 2 [MOD interval] := by
  rw [Cadence.syncDue_iff_of_updates hsync]
  exact ⟨fun h => Nat.ModEq.add_right 1 h, fun h => Nat.ModEq.add_right_cancel' 1 h⟩

/-! ### One step -/

section

variable {p : Plan} {t t' : Tally} {l l' : Learner} {xs : List Exchange} {phase : Cadence.Phase}
  {timeStep interval : Nat} {c : Cadence} {counts : Option (Nat × Nat)}

theorem Updates.updates_eq {r : Except Failure (Option Float)} (h : Updates p timeStep phase l xs r l') :
    l'.stats.updates = l.stats.updates + (xs.filterMap Exchange.loss?).length := by
  cases h with
  | skipped _ => rfl
  | failed _ _ => rfl
  | done loss _ => exact l.updates_updated loss

theorem Syncs.updates_eq {r : Except Failure Bool} (h : Syncs c counts l xs r l') :
    l'.stats.updates = l.stats.updates ∧ xs.filterMap Exchange.loss? = [] := by
  cases h with
  | skipped _ => exact ⟨rfl, rfl⟩
  | failed _ _ _ _ _ => exact ⟨rfl, rfl⟩
  | done _ _ _ _ => exact ⟨l.updates_synced, rfl⟩

/-- A learner counts the updates that succeed. -/
theorem Steps.updates_eq {r : Except Failure Report} (h : Steps p t l xs r t' l') :
    l'.stats.updates = l.stats.updates + (xs.filterMap Exchange.loss?).length := by
  rcases h.parts with ⟨f, rfl, -, rfl⟩ | ⟨o, us, ss, r₁, l₁, _, r₂, rfl, -, hu, hs⟩
  · rfl
  · obtain ⟨hupdates, hnil⟩ := hs.updates_eq
    rw [hupdates, hu.updates_eq, Learner.updates_taken]
    show _ = _ + ((us ++ ss).filterMap Exchange.loss?).length
    rw [List.filterMap_append, hnil, List.append_nil]

/-- The target network is left alone, and it is not due if there was an update. -/
def LeavesTarget (c : Cadence) (updates : Nat) (xs : List Exchange) : Prop :=
  (∀ told reply, .sync told reply ∉ xs) ∧
    ∀ request loss, .update request (.ok loss) ∈ xs → ¬ c.SyncDue updates

theorem LeavesTarget.cons_observe {updates : Nat} (h : LeavesTarget c updates xs) (timeStep : Nat)
    (answer : Except Failure Observation) :
    LeavesTarget c updates (.observe timeStep answer :: xs) := by
  refine ⟨fun told reply hmem => ?_, fun request loss hmem => ?_⟩
  · exact h.1 told reply ((List.mem_cons.mp hmem).resolve_left nofun)
  · exact h.2 request loss ((List.mem_cons.mp hmem).resolve_left nofun)

/-- After an update that has not failed, the target network is left alone or comes next. -/
theorem Updates.target_cases {us ss : List Exchange} {l₁ l₂ : Learner} {loss : Option Float}
    {updates : Nat} {r : Except Failure Bool} (hu : Updates p timeStep phase l us (.ok loss) l₁)
    (hs : Syncs c (loss.map fun _ => (updates, updates + 1)) l₁ ss r l₂) :
    LeavesTarget c updates (us ++ ss) ∨ c.SyncDue updates ∧ ∃ request loss reply,
      us ++ ss = [.update request (.ok loss), .sync (updates + 1) reply] := by
  cases hu with
  | skipped _ =>
    cases hs with
    | skipped _ => exact .inl ⟨by simp, by simp⟩
    | failed _ _ _ h _ => cases h
    | done _ _ h _ => cases h
  | done loss _ =>
    cases hs with
    | skipped hnot => exact .inl ⟨by simp, fun _ _ _ => hnot _ _ rfl⟩
    | failed _ _ f h hdue =>
      cases h
      exact .inr ⟨hdue, _, _, _, rfl⟩
    | done _ _ h hdue =>
      cases h
      exact .inr ⟨hdue, _, _, _, rfl⟩

/-- The target network is due, and comes right after an update. -/
def FollowsWithTarget (c : Cadence) (updates : Nat) (xs : List Exchange) : Prop :=
  c.SyncDue updates ∧ ∃ timeStep o request loss reply,
    xs = [.observe timeStep (.ok o), .update request (.ok loss), .sync (updates + 1) reply]

/-- Where updates are counted, a step leaves the target network alone, or it has just updated the
agent. -/
theorem Steps.target_cases {r : Except Failure Report} (h : Steps p t l xs r t' l')
    (hbasis : p.agent.cadence.basis = some .updates) :
    LeavesTarget p.agent.cadence l.stats.updates xs ∨
      FollowsWithTarget p.agent.cadence l.stats.updates xs := by
  have hsynced {o : Observation} {us ss : List Exchange} {l₁ l₂ : Learner} {loss : Option Float}
      {r : Except Failure Bool}
      (hu : Updates p (p.nextStep t) (p.phase t l o) (l.taken o) us (.ok loss) l₁)
      (hs : Syncs p.agent.cadence (p.syncCounts t l o loss) l₁ ss r l₂) :
      LeavesTarget p.agent.cadence l.stats.updates (.observe (p.nextStep t) (.ok o) :: (us ++ ss)) ∨
      FollowsWithTarget p.agent.cadence l.stats.updates
        (.observe (p.nextStep t) (.ok o) :: (us ++ ss)) := by
    have hcounts : p.syncCounts t l o loss =
        loss.map fun _ => (l.stats.updates, l.stats.updates + 1) := by
      rw [Plan.syncCounts, hbasis, syncCounts]
    rw [hcounts] at hs
    rcases hu.target_cases hs with hleaves | ⟨hdue, request, loss, reply, heq⟩
    · exact .inl (hleaves.cons_observe _ _)
    · rw [heq]
      exact .inr ⟨hdue, _, _, _, _, _, rfl⟩
  cases h with
  | unobserved f => exact .inl ⟨by simp, by simp⟩
  | notUpdated o f hu =>
    cases hu with
    | failed _ _ => exact .inl ⟨by simp, by simp⟩
  | notSynced o loss f hu hs => exact hsynced hu hs
  | completed o loss synced hu hs => exact hsynced hu hs

/-- **In a step the target network follows the update**, which is the learner's next one. -/
theorem Steps.followsUpdates {r : Except Failure Report} (h : Steps p t l xs r t' l')
    (hsync : p.agent.cadence.targetSync = some ⟨interval, .updates⟩) (e : Event)
    (r' : Option (Except Failure Report)) (t'' : Tally) :
    Happening.FollowsUpdates ⟨e, xs, r', t''⟩ interval (l.stats.updates + 1) := by
  have hbasis : p.agent.cadence.basis = some .updates := by rw [Cadence.basis, hsync]; rfl
  rcases h.target_cases hbasis with ⟨hnone, hnot⟩ | ⟨hdue, timeStep, o, request, loss, reply, rfl⟩
  · refine ⟨⟨?_, ?_⟩, fun told reply hmem => absurd hmem (hnone told reply), modEq_two_iff⟩
    · rintro ⟨told, reply, hmem⟩
      exact absurd hmem (hnone told reply)
    · rintro ⟨⟨request, loss, hmem⟩, hnumber⟩
      exact absurd ((syncDue_iff hsync _).mpr hnumber) (hnot request loss hmem)
  · refine ⟨⟨fun _ => ⟨⟨request, loss, by simp⟩, (syncDue_iff hsync _).mp hdue⟩,
      fun _ => ⟨l.stats.updates + 1, reply, by simp⟩⟩, fun told reply' hmem => ?_, modEq_two_iff⟩
    obtain ⟨rfl, rfl⟩ : told = l.stats.updates + 1 ∧ reply' = reply := by simpa using hmem
    exact ⟨rfl, _, _, _, _, rfl⟩

end

/-! ### Runs -/

namespace Fleet

variable {σ : Type} {p : Plan} {f f' : Fleet σ} {h : Happening} {hs : List Happening} {worker : Nat}

/-- A learner counts the updates of its own steps. -/
theorem Happens.updates_eq (hh : Happens p f h f') (worker : Nat) :
    f'.learners[worker]?.map (·.stats.updates) =
      f.learners[worker]?.map (·.stats.updates + (h.lossesOf worker).length) := by
  rcases hh.learner_cases worker with ⟨l, l', r, hevent, -, hl, hl', hsteps⟩ | ⟨heq, hquiet⟩
  · rw [hl, hl', Option.map_some, Option.map_some, hsteps.updates_eq, Happening.lossesOf, if_pos hevent]
  · have hlosses : h.lossesOf worker = [] := by
      by_cases hevent : h.event = .step worker
      · rw [Happening.lossesOf, if_pos hevent, (hquiet hevent).1]
        rfl
      · exact if_neg hevent
    rw [heq, hlosses]
    rfl

/-- **The count of a learner is the number of its own updates that succeeded**, and those of other
learners have no part in it. -/
theorem Runs.updates_eq (hr : Runs p f hs f') (worker : Nat) :
    f'.learners[worker]?.map (·.stats.updates) =
      f.learners[worker]?.map (·.stats.updates + updatesOf worker hs) := by
  induction hr with
  | nil f => rfl
  | @cons f f₁ f₂ h hs hh _ ih =>
    have hcons : updatesOf worker (h :: hs) = (h.lossesOf worker).length + updatesOf worker hs := by
      rw [updatesOf, List.flatMap_cons, List.length_append]
      rfl
    calc f₂.learners[worker]?.map (·.stats.updates)
        = (f₁.learners[worker]?.map (·.stats.updates)).map (· + updatesOf worker hs) := by
          rw [ih, Option.map_map]
          rfl
      _ = f.learners[worker]?.map (·.stats.updates + updatesOf worker (h :: hs)) := by
          rw [hh.updates_eq, Option.map_map, hcons]
          simp [Function.comp_def, Nat.add_assoc]

/-- A learner that is there has counted what it was answered since the start. -/
theorem updates_eq_of_run {start : Tally} {workers : Nat} {s : σ} {rt : Runtime σ} {es : List Event}
    {l : Learner} (hl : ((Fleet.start start workers s).run p rt es).2.learners[worker]? = some l) :
    l.stats.updates = updatesOf worker ((Fleet.start start workers s).run p rt es).1 := by
  have hcount := (runs_run p rt (Fleet.start start workers s) es).updates_eq worker
  rw [hl, Option.map_some] at hcount
  obtain ⟨l₀, hl₀, hcount⟩ := Option.map_eq_some_iff.mp hcount.symm
  obtain rfl : l₀ = .new := eq_new_of_start hl₀
  rw [← hcount]
  exact Nat.zero_add _

/-- A happening without an exchange has nothing to follow. -/
theorem followsUpdates_of_nil {interval updates : Nat} (hnil : h.exchanges = []) :
    h.FollowsUpdates interval (updates + 1) := by
  refine ⟨?_, ?_, modEq_two_iff⟩
  · simp [hnil]
  · simp [hnil]

/-- **The target network follows each learner's own updates.** Whatever learners do that start
together, in whatever order, and wherever they fail: in a step of a learner, the network is asked for
when the update succeeds and its number, among the updates of that learner that succeeded, is 2 or
comes a multiple of the interval after. -/
theorem followsUpdates_run {interval : Nat}
    (hsync : p.agent.cadence.targetSync = some ⟨interval, .updates⟩) (rt : Runtime σ) (start : Tally)
    (workers : Nat) (s : σ) (es : List Event) {i : Nat}
    (hi : ((Fleet.start start workers s).run p rt es).1[i]? = some h) (hevent : h.event = .step worker) :
    h.FollowsUpdates interval
      (updatesOf worker (((Fleet.start start workers s).run p rt es).1.take i) + 1) := by
  have hh := happens_of_getElem? hi
  rw [take_run]
  generalize ((Fleet.start start workers s).run p rt (es.take (i + 1))).2 = f' at hh
  cases hh with
  | missing => exact followsUpdates_of_nil rfl
  | advanced => cases hevent
  | ended => cases hevent
  | stepped s' hl hsteps =>
    cases hevent
    rw [← updates_eq_of_run hl]
    exact hsteps.followsUpdates hsync _ _ _

end Fleet

/-- A runtime whose updates fail in the first time steps. -/
def Runtime.warmingUp (timeSteps : Nat) : Runtime Unit :=
  { Runtime.steady ⟨1, false⟩ with
    update request s := (if request.timeStep ≤ timeSteps then .error (.device "busy") else .ok 0.5, s) }

/-- Two learners take turns, and the first two updates fail. The second learner's second update that
succeeds is the one of its third step. -/
theorem followsUpdates_run_pendulum :
    let es : List Event := (List.replicate 3 [.step 0, .step 1]).flatten
    ∃ a, Agent.decode .standard Agent.pendulum = .ok a ∧
      ∃ h, ((Fleet.start .zero 2 ()).run ⟨a, 100, .around⟩ (Runtime.warmingUp 2) es).1[5]? = some h ∧
        h.FollowsUpdates 2 (updatesOf 1
          (((Fleet.start .zero 2 ()).run ⟨a, 100, .around⟩ (Runtime.warmingUp 2) es).1.take 5) + 1) ∧
        .sync 2 (.ok ()) ∈ h.exchanges := by
  intro es
  obtain ⟨a, ha, hsync, h, hi, hevent, hmem⟩ : ∃ a, Agent.decode .standard Agent.pendulum = .ok a ∧
      a.cadence.targetSync = some ⟨2, .updates⟩ ∧
      ∃ h, ((Fleet.start .zero 2 ()).run ⟨a, 100, .around⟩ (Runtime.warmingUp 2) es).1[5]? = some h ∧
        h.event = .step 1 ∧ .sync 2 (.ok ()) ∈ h.exchanges :=
    ⟨_, rfl, rfl, _, rfl, rfl, List.mem_cons_of_mem _ (List.mem_cons_of_mem _ List.mem_cons_self)⟩
  exact ⟨a, ha, h, hi, Fleet.followsUpdates_run hsync _ .zero 2 () es hi hevent, hmem⟩

end Regimen.Training
