import Regimen.Proofs.Run

/-!
# Overflow

A program counts in 64 bits, and starts again after the greatest count. Much that is said of tallies is
said of counts that go on without end. It holds of the program for as long as no count exceeds `maxCount`:
**until then the two ways of counting come to the same** (`Fleet.NeverOverflows.run_eq`).
-/

namespace Regimen

namespace Training

/-! ### Steps -/

/-- The same plan, with a tally that counts without end. -/
def Plan.endless (p : Plan) : Plan := { p with counting := .endless }

@[simp] theorem Plan.counting_endless (p : Plan) : p.endless.counting = .endless := rfl

/-- The time step that was to be observed does not exceed the greatest count. -/
def Exchange.Fits : Exchange → Prop
  | observe timeStep _ => timeStep ≤ maxCount
  | _ => True

instance (x : Exchange) : Decidable x.Fits := by
  unfold Exchange.Fits
  split <;> infer_instance

/-- **No count exceeds the greatest one** in what happened: neither those that the tally has come to nor
the time step that was to be observed. -/
def Happening.Fits (h : Happening) : Prop := h.tally.Fits ∧ ∀ x ∈ h.exchanges, x.Fits

instance (h : Happening) : Decidable h.Fits := inferInstanceAs (Decidable (_ ∧ ∀ _ ∈ _, _))

section

variable {σ : Type} {p : Plan} {rt : Runtime σ} {w : World σ} {o : Observation}

theorem Plan.counted_of_fits {t : Tally} (h : (p.endless.counted t o).Fits) :
    p.counted t o = p.endless.counted t o := by
  unfold counted at h ⊢
  cases hdone : o.episodeDone with
  | false =>
    rw [hdone] at h
    exact Tally.advance_of_fits h p.counting
  | true =>
    rw [hdone] at h
    have hnext : (t.advance 1).Fits := ⟨h.1, Nat.le_of_succ_le h.2⟩
    show (t.advance 1 p.counting).endEpisode p.counting = (t.advance 1).endEpisode
    rw [Tally.advance_of_fits hnext]
    exact Tally.endEpisode_of_fits h p.counting

theorem World.take_of_fits (h : (p.endless.counted w.tally o).Fits) :
    w.take o p.counting = w.take o .endless :=
  congrArg (fun t => (⟨t, w.learner.taken o, w.runtime, w.trace⟩ : World σ)) (p.counted_of_fits h)

/-- An observation is the same in either way of counting, if its time step fits and the tally after it
does. -/
theorem observe_of_fits (hnext : p.endless.nextStep w.tally ≤ maxCount)
    (hfits : ∀ o, (observe p.endless rt).outcome w = .ok o → (p.endless.counted w.tally o).Fits) :
    (observe p rt).run w = (observe p.endless rt).run w := by
  have hstep : p.nextStep w.tally = p.endless.nextStep w.tally := p.counting.add_of_le hnext
  have hcounted (q : Plan) : (observe q rt).run w = (Act.exchange (.observe (q.nextStep w.tally))
      (rt.observe (q.nextStep w.tally)) >>= fun o => do
        modify (·.take o q.counting)
        return o).run w := rfl
  rw [hcounted, hcounted, hstep]
  refine Attempt.run_bind_congr rfl fun o ho => ?_
  have hobserved : (observe p.endless rt).outcome w = .ok o := by
    rw [Attempt.outcome, hcounted]
    exact Attempt.outcome_bind_of_ok ho
  rw [after_exchange]
  exact congrArg (EStateM.Result.ok o) (World.take_of_fits (hfits o hobserved))

/-- A step leaves the tally as it is once it has observed. -/
theorem tally_step (h : (observe p rt).outcome w = .ok o) :
    ((step p rt).after w).tally = p.counted w.tally o := by
  rcases observe_cases p rt w with ⟨f, s, hout, -⟩ | ⟨o', s, hout, hafter⟩
  · cases hout.symm.trans h
  · cases hout.symm.trans h
    let u := (w.heard (.observe (p.nextStep w.tally) (.ok o)) s).take o p.counting
    have htally : u.tally = p.counted w.tally o := rfl
    have hlearner : u.learner = w.learner.taken o := rfl
    obtain ⟨xs, -, hsteps⟩ := steps_finish p rt htally hlearner
    rcases hsteps.parts with ⟨f, hxs, -⟩ | ⟨o', _, _, _, _, _, _, hxs, hkept, -⟩
    · cases hxs
    · cases hxs
      rw [step, Attempt.after_bind_of_ok hout, hafter]
      exact hkept

/-- **A step is the same in either way of counting**, if no count exceeds the greatest one. -/
theorem step_of_fits (hnext : p.endless.nextStep w.tally ≤ maxCount)
    (hfits : ((step p.endless rt).after w).tally.Fits) :
    (step p rt).run w = (step p.endless rt).run w := by
  refine Attempt.run_bind_congr (observe_of_fits hnext fun o ho => ?_) fun _ _ => rfl
  rwa [tally_step ho] at hfits

end

/-! ### Fleets -/

namespace Fleet

variable {σ : Type} {p : Plan} {rt : Runtime σ} {f : Fleet σ} {e : Event}

theorem happen_of_fits (h : (f.happen p.endless rt e).1.Fits) :
    f.happen p rt e = f.happen p.endless rt e := by
  cases e with
  | advance n =>
    have htally : f.tally.advance n p.counting = f.tally.advance n := Tally.advance_of_fits h.1 _
    simp only [happen, htally]
    rfl
  | endEpisode =>
    have htally : f.tally.endEpisode p.counting = f.tally.endEpisode :=
      Tally.endEpisode_of_fits h.1 _
    simp only [happen, htally]
    rfl
  | step worker =>
    cases hl : f.learners[worker]? with
    | none => rw [happen_step_of_none p rt hl, happen_step_of_none p.endless rt hl]
    | some l =>
      rw [happen_step_of_some p.endless rt hl] at h
      rw [happen_step_of_some p rt hl, happen_step_of_some p.endless rt hl]
      let w : World σ := ⟨f.tally, l, f.runtime, []⟩
      obtain ⟨xs, hadds, hsteps⟩ := steps_step p.endless rt w
      obtain ⟨reply, rest, rfl⟩ := hsteps.begins
      have hasked : .observe (p.endless.nextStep w.tally) reply ∈
          ((step p.endless rt).after w).exchanges := by
        rw [hadds]
        exact List.mem_cons_self
      have hnext : p.endless.nextStep w.tally ≤ maxCount := h.2 _ hasked
      have hrun : (step p rt).run w = (step p.endless rt).run w := step_of_fits hnext h.1
      have hout : (step p rt).outcome w = (step p.endless rt).outcome w := by
        rw [Attempt.outcome, hrun, Attempt.outcome]
      have hafter : (step p rt).after w = (step p.endless rt).after w := by
        rw [Attempt.after, hrun, Attempt.after]
      show (_, _) = (_, _)
      rw [hout, hafter]

/-- **No count overflows** in the course of some events: the tally counts without end, or none of its
counts would exceed the greatest one if it did. -/
def NeverOverflows (p : Plan) (rt : Runtime σ) (f : Fleet σ) (es : List Event) : Prop :=
  p.counting = .around → ∀ h ∈ (f.run p.endless rt es).1, h.Fits

theorem run_of_fits {es : List Event} (h : ∀ h ∈ (f.run p.endless rt es).1, h.Fits) :
    f.run p rt es = f.run p.endless rt es := by
  induction es generalizing f with
  | nil => rfl
  | cons e es ih =>
    have hhappen : f.happen p rt e = f.happen p.endless rt e :=
      happen_of_fits (h _ List.mem_cons_self)
    have hrun : (f.happen p.endless rt e).2.run p rt es = (f.happen p.endless rt e).2.run p.endless rt es :=
      ih fun h' hmem => h h' (List.mem_cons_of_mem _ hmem)
    rw [run_cons, run_cons, hhappen, hrun]

/-- **Without an overflow, what happens to a fleet is the same in either way of counting.** -/
theorem NeverOverflows.run_eq {es : List Event} (h : f.NeverOverflows p rt es) :
    f.run p rt es = f.run p.endless rt es := by
  cases hcounting : p.counting with
  | around => exact run_of_fits (h hcounting)
  | endless => rw [Plan.endless, ← hcounting]

section

variable {f' : Fleet σ} {h : Happening} {hs : List Happening}

/-- A step moves each count by one at most. -/
theorem Happens.le_of_step {worker : Nat} (hh : Happens p.endless f h f') (hevent : h.event = .step worker) :
    h.tally = f'.tally ∧ f'.tally.timeSteps ≤ f.tally.timeSteps + 1 ∧
      f'.tally.episodes ≤ f.tally.episodes + 1 ∧
      (f.tally.timeSteps + 1 ≤ maxCount → ∀ x ∈ h.exchanges, x.Fits) := by
  cases hh with
  | missing => exact ⟨rfl, Nat.le_succ _, Nat.le_succ _, fun _ => nofun⟩
  | advanced n => cases hevent
  | ended => cases hevent
  | @stepped _ l l' xs r t s hl hsteps =>
    have hobserve : f.tally.timeSteps + 1 ≤ maxCount → ∀ x ∈ xs, x.Fits := by
      intro hle x hx
      cases x with
      | observe timeStep answer =>
        obtain rfl := hsteps.of_observe_mem hx
        exact hle
      | update request answer => trivial
      | sync count answer => trivial
    rcases hsteps.seen_cases with ⟨-, rfl, -⟩ | ⟨o, -, rfl, -⟩
    · exact ⟨rfl, Nat.le_succ _, Nat.le_succ _, hobserve⟩
    · refine ⟨rfl, ?_, ?_, hobserve⟩
      · exact Nat.le_of_eq (p.endless.timeSteps_counted f.tally o)
      · show (p.endless.counted f.tally o).episodes ≤ _
        rw [p.endless.episodes_counted]
        split
        · exact Nat.le_refl _
        · exact Nat.le_succ _

theorem Runs.fits (hr : Runs p.endless f hs f') {worker : Nat} (hevents : ∀ h ∈ hs, h.event = .step worker)
    (htimeSteps : f.tally.timeSteps + hs.length ≤ maxCount)
    (hepisodes : f.tally.episodes + hs.length ≤ maxCount) : ∀ h ∈ hs, h.Fits := by
  induction hr with
  | nil f => exact nofun
  | cons hh _ ih =>
    obtain ⟨hevent, hlater⟩ := List.forall_mem_cons.mp hevents
    obtain ⟨htally, hstep, hepisode, hobserve⟩ := hh.le_of_step hevent
    rw [List.length_cons] at htimeSteps hepisodes
    refine List.forall_mem_cons.mpr ⟨⟨?_, hobserve (by omega)⟩, ih hlater (by omega) (by omega)⟩
    rw [htally]
    exact ⟨by omega, by omega⟩

/-- A single learner takes no more steps than there are counts left. -/
theorem neverOverflows_solo (start : Tally) (s : σ) {n : Nat}
    (h : p.counting = .around → start.timeSteps + n ≤ maxCount ∧ start.episodes + n ≤ maxCount) :
    (Fleet.start start 1 s).NeverOverflows p rt (List.replicate n (.step 0)) := by
  intro hcounting
  obtain ⟨htimeSteps, hepisodes⟩ := h hcounting
  obtain ⟨_, hr⟩ := runs_solo p.endless rt start s n
  have hlength := length_solo p.endless rt start s n
  exact hr.fits (fun _ => event_of_mem_solo) (hlength.symm ▸ htimeSteps) (hlength.symm ▸ hepisodes)

end

end Fleet

end Training

end Regimen
