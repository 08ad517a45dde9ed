import Mathlib.Algebra.BigOperators.Group.List.Basic
import Regimen.Proofs.Pace

/-!
# Agents that never learn

Updates wait until enough is buffered, and memory has a capacity. A document whose updates wait for
more than memory can hold is accepted with a warning. **The warning is exact**
(`warning_exact`): it is given just when the threshold exceeds the capacity; an agent that carries
it never learns, whatever happens to the fleet that trains it; and any other agent learns, if it
learns at all, by the first multiple of the interval that reaches the threshold, given a record and
the end of an episode in every step.
-/

namespace Regimen

namespace Agent

/-- The place of the section about updates, or of the size of a batch in it. -/
def IsUpdatePlace (path : Path) : Prop :=
  path.text = "update_spec" ∨ path.text = "update_spec.batch_size"

instance (path : Path) : Decidable (IsUpdatePlace path) :=
  inferInstanceAs (Decidable (_ ∨ _))

/-- The agent carries a warning about when it learns, or from how much. -/
def WarnsOfUpdates (a : Agent) : Prop := ∃ w ∈ a.warnings, IsUpdatePlace w.path

/-! ### When the warning is given -/

theorem exists_mem_ite_singleton {α : Type} {condition : Prop} [Decidable condition] {a : α}
    {P : α → Prop} : (∃ x, x ∈ (if condition then [a] else []) ∧ P x) ↔ condition ∧ P a := by
  by_cases h : condition
  · simp [h]
  · simp [h]

/-- A batch that is greater than memory is warned of at its own place, any other threshold that is at
the place of the section. -/
theorem exists_concern_iff {memory : Memory} {cadence : Cadence} (buffer : Option Nat)
    (hbatch : cadence.batch ≤ cadence.threshold) :
    (∃ w ∈ concerns memory cadence buffer, IsUpdatePlace w.path) ↔
      memory.capacity < cadence.threshold := by
  have hsize : IsUpdatePlace ((Path.root.key "update_spec").key "batch_size") := by decide
  have hsection : IsUpdatePlace (Path.root.key "update_spec") := by decide
  have hinterval : ¬ IsUpdatePlace ((Path.root.key "update_spec").key "update_interval") := by decide
  have hbuffer : ¬ IsUpdatePlace ((Path.root.key "observe_spec").key "buffer_size") := by decide
  unfold concerns
  simp only [List.mem_append, or_and_right, exists_or, exists_mem_ite_singleton, hsize, hsection,
    hinterval, hbuffer, and_true, and_false, or_false]
  omega

theorem Parts.warnsOfUpdates_iff {options : Options} {s : Section} {buffer : Option Nat} {a : Agent}
    (h : Parts options s buffer a) : a.WarnsOfUpdates ↔ a.memory.capacity < a.cadence.threshold := by
  have hwarnings : a.warnings = concerns a.memory a.cadence buffer := by
    have hchecked := h.warnings
    unfold checked at hchecked
    split at hchecked
    · cases hchecked
    · exact (Except.ok.inj hchecked).symm
  rw [WarnsOfUpdates, hwarnings]
  exact exists_concern_iff buffer h.wellFormed.cadence.batch_le_threshold

end Agent

/-! ### Memory is too small -/

namespace Training

/-- **An agent whose memory is too small collects for ever.** -/
theorem Fleet.Happens.collecting {σ : Type} {p : Plan} {f f' : Fleet σ} {h : Happening}
    (hh : Fleet.Happens p f h f') (hsmall : p.agent.memory.capacity < p.agent.cadence.threshold) :
    (∀ report, h.outcome = some (.ok report) → report.phase = .collecting) ∧
      ∀ request answer, .update request answer ∉ h.exchanges := by
  constructor
  · intro report hreport
    obtain ⟨o, l, -, hbuffered, hphase⟩ := hh.of_report hreport
    rw [hphase, hbuffered]
    exact phaseAt_eq_collecting_iff.mpr (Nat.lt_of_le_of_lt (p.buffered_le l) hsmall)
  · intro request answer hx
    obtain ⟨n, o, l, -, -, hdue, -⟩ := hh.of_update_mem hx
    have hthreshold := hdue.2.2.2
    have hle := p.buffered_le l
    omega

end Training

/-! ### Memory is large enough -/

namespace Cadence

/-- **The step by which there is an update**: the threshold, rounded up to a multiple of the
interval. -/
def firstUpdate (c : Cadence) : Nat := (c.threshold + c.interval - 1) / c.interval * c.interval

theorem threshold_le_firstUpdate {c : Cadence} (h : 0 < c.interval) : c.threshold ≤ c.firstUpdate := by
  unfold firstUpdate
  have hmod := Nat.mod_lt (c.threshold + c.interval - 1) h
  have hdiv := Nat.div_add_mod (c.threshold + c.interval - 1) c.interval
  rw [Nat.mul_comm] at hdiv
  omega

theorem interval_dvd_firstUpdate (c : Cadence) : c.interval ∣ c.firstUpdate := Nat.dvd_mul_left _ _

end Cadence

namespace Training

/-- An observation that brings a record and ends an episode. -/
def Observation.IsBusy (o : Observation) : Prop := 0 < o.records ∧ o.episodeDone = true

instance (o : Observation) : Decidable o.IsBusy := inferInstanceAs (Decidable (_ ∧ _))

variable {p : Plan} {os : List Observation}

theorem length_le_records (h : ∀ o ∈ os, o.IsBusy) : os.length ≤ (os.map (·.records)).sum := by
  rw [← List.length_map (f := Observation.records)]
  refine List.length_le_sum_of_one_le _ ?_
  intro r hr
  obtain ⟨o, ho, rfl⟩ := List.mem_map.mp hr
  exact (h o ho).1

/-- Where every observation ends an episode, both measures count the steps. -/
theorem Plan.decidedAfter_of_busy (h : ∀ o ∈ os, o.IsBusy) (hne : os ≠ []) :
    p.decidedAfter .zero os = some os.length := by
  cases hmeasure : p.agent.cadence.measure with
  | timeSteps => rw [Plan.decidedAfter_of_timeSteps hmeasure, Tally.zero, Nat.zero_add]
  | episodes =>
    have hcount : os.countP (·.episodeDone) = os.length :=
      List.countP_eq_length.mpr fun o ho => (h o ho).2
    have hlast : os.getLast?.any (·.episodeDone) = true := by
      rw [List.getLast?_eq_some_getLast hne, Option.any_some]
      exact (h _ (List.getLast_mem hne)).2
    rw [Plan.decidedAfter_of_episodes hmeasure, if_pos hlast, hcount, Tally.zero, Nat.zero_add]

/-- **The threshold and a multiple of the interval are reached together.** -/
theorem Plan.fires_of_busy (henabled : p.agent.cadence.enabled = true)
    (hinterval : 0 < p.agent.cadence.interval) (hthreshold : 0 < p.agent.cadence.threshold)
    (hlarge : p.agent.cadence.threshold ≤ p.agent.memory.capacity)
    (hlength : os.length = p.agent.cadence.firstUpdate) (h : ∀ o ∈ os, o.IsBusy) :
    p.Fires .zero os := by
  have hreached := Cadence.threshold_le_firstUpdate hinterval
  have hrecords := length_le_records h
  have hne : os ≠ [] := by
    rintro rfl
    rw [List.length_nil] at hlength
    omega
  refine ⟨henabled, ⟨os.length, p.decidedAfter_of_busy h hne, ?_⟩, ?_⟩
  · rw [hlength]
    exact p.agent.cadence.interval_dvd_firstUpdate
  · rw [Plan.bufferedAfter]
    omega

theorem Plan.update_mem_calls {start : Tally} (h : p.Fires start os) :
    .update (p.updateOf (start.after os).timeSteps) ∈ p.calls start os := by
  simp only [Plan.calls, if_pos h]
  exact List.mem_cons_of_mem _ (List.mem_append_left _ (List.mem_singleton_self _))

/-- An update that was called for in a smooth step succeeded. -/
theorem Happening.Smooth.exists_update {h : Happening} (hsmooth : h.Smooth) {request : Request}
    (hcall : .update request ∈ h.exchanges.map Exchange.call) :
    ∃ loss, .update request (.ok loss) ∈ h.exchanges := by
  obtain ⟨x, hx, hxcall⟩ := List.mem_map.mp hcall
  cases x with
  | observe timeStep answer => cases hxcall
  | sync count answer => cases hxcall
  | update request' answer =>
    cases hxcall
    cases answer with
    | ok loss => exact ⟨loss, hx⟩
    | error f => cases hsmooth _ hx

/-- **An agent whose memory is large enough learns**, and soon. -/
theorem Fleet.exists_update {σ : Type} {rt : Runtime σ} {s : σ}
    (hcounts : p.counting = .around → p.agent.cadence.firstUpdate ≤ maxCount)
    (hcapacity : p.agent.memory.capacity ≤ maxCount) (henabled : p.agent.cadence.enabled = true)
    (hinterval : 0 < p.agent.cadence.interval) (hthreshold : 0 < p.agent.cadence.threshold)
    (hlarge : p.agent.cadence.threshold ≤ p.agent.memory.capacity)
    (hsmooth : ∀ h ∈ Fleet.solo p rt .zero s p.agent.cadence.firstUpdate, h.Smooth)
    (hbusy : ∀ h ∈ Fleet.solo p rt .zero s p.agent.cadence.firstUpdate,
      ∀ o ∈ h.observations, o.IsBusy) :
    ∃ h ∈ Fleet.solo p rt .zero s p.agent.cadence.firstUpdate, ∃ request loss,
      .update request (.ok loss) ∈ h.exchanges := by
  have hreached := Cadence.threshold_le_firstUpdate hinterval
  -- The update is in the last of these steps, if not before.
  obtain ⟨k, hk⟩ : ∃ k, p.agent.cadence.firstUpdate = k + 1 := ⟨_, (Nat.succ_pred (by omega)).symm⟩
  have hfits (hcounting : p.counting = .around) : Tally.zero.timeSteps + (k + 1) ≤ maxCount ∧
      Tally.zero.episodes + (k + 1) ≤ maxCount := by
    have hle := hcounts hcounting
    rw [hk] at hle
    rw [Tally.zero, Nat.zero_add]
    exact ⟨hle, hle⟩
  rw [hk] at hsmooth hbusy ⊢
  obtain ⟨os, hlength, hobserved, hcalls⟩ := Fleet.calls_solo hfits hcapacity hsmooth
  have hbusy' : ∀ o ∈ os, o.IsBusy := by
    intro o ho
    have hmem : [o] ∈ (Fleet.solo p rt .zero s (k + 1)).map Happening.observations := by
      rw [hobserved]
      exact List.mem_map_of_mem ho
    obtain ⟨h, hh, hone⟩ := List.mem_map.mp hmem
    exact hbusy h hh o (hone ▸ List.mem_singleton_self o)
  have hfires : p.Fires .zero os :=
    p.fires_of_busy henabled hinterval hthreshold hlarge (hlength.trans hk.symm) hbusy'
  have hlast : k < (Fleet.solo p rt .zero s (k + 1)).length := by
    rw [Fleet.length_solo]
    exact Nat.lt_succ_self k
  obtain ⟨-, hcalled⟩ := hcalls k _ (List.getElem?_eq_getElem hlast)
  have hcall := p.update_mem_calls hfires
  rw [List.take_of_length_le (Nat.le_of_eq hlength)] at hcalled
  rw [← hcalled] at hcall
  have hmem := List.getElem_mem hlast
  exact ⟨_, hmem, _, (hsmooth _ hmem).exists_update hcall⟩

/-- **The warning is exact.** It is given where the threshold exceeds the capacity. An agent that
carries it never learns, whoever trains it and whatever happens. An agent that does not, and that is
to learn at all, does so by the first multiple of the interval that reaches the threshold, if the tally
gets there, where a single learner trains it from the beginning, nothing fails, and every step brings a
record and ends an episode. -/
theorem warning_exact {options : Options} {document : Value} {a : Agent}
    (hdecode : Agent.decode options document = .ok a) :
    (a.WarnsOfUpdates ↔ a.memory.capacity < a.cadence.threshold) ∧
    (a.WarnsOfUpdates → ∀ (σ : Type) (horizon : Nat) (counting : Counting) (rt : Runtime σ)
      (f : Fleet σ) (es : List Event), ∀ h ∈ (f.run ⟨a, horizon, counting⟩ rt es).1,
        (∀ report, h.outcome = some (.ok report) → report.phase = .collecting) ∧
        ∀ request answer, .update request answer ∉ h.exchanges) ∧
    (¬ a.WarnsOfUpdates → a.cadence.enabled = true →
      ∀ (σ : Type) (horizon : Nat) (counting : Counting) (rt : Runtime σ) (s : σ) (n : Nat),
        (counting = .around → a.cadence.firstUpdate ≤ maxCount) → a.cadence.firstUpdate ≤ n →
        (∀ h ∈ Fleet.solo ⟨a, horizon, counting⟩ rt .zero s n, h.Smooth) →
        (∀ h ∈ Fleet.solo ⟨a, horizon, counting⟩ rt .zero s n, ∀ o ∈ h.observations, o.IsBusy) →
        ∃ h ∈ (Fleet.solo ⟨a, horizon, counting⟩ rt .zero s n).take a.cadence.firstUpdate,
          ∃ request loss, .update request (.ok loss) ∈ h.exchanges) := by
  obtain ⟨_, _, -, hparts⟩ := Agent.parts_of_decode hdecode
  have hwell := hparts.wellFormed
  have hwarns := hparts.warnsOfUpdates_iff
  refine ⟨hwarns, ?_, ?_⟩
  · intro hwarned σ horizon counting rt f es h hmem
    obtain ⟨_, _, hh⟩ := (Fleet.runs_run ⟨a, horizon, counting⟩ rt f es).happens_of_mem hmem
    exact hh.collecting (hwarns.mp hwarned)
  · intro hsilent henabled σ horizon counting rt s n hcounts hlong hsmooth hbusy
    have hlarge : a.cadence.threshold ≤ a.memory.capacity :=
      Nat.le_of_not_lt fun hsmall => hsilent (hwarns.mpr hsmall)
    have hthreshold : 0 < a.cadence.threshold :=
      Nat.lt_of_lt_of_le hwell.cadence.batch_pos hwell.cadence.batch_le_threshold
    have htake := Fleet.take_solo ⟨a, horizon, counting⟩ rt .zero s hlong
    have hfirst {h : Happening} (hmem : h ∈ Fleet.solo ⟨a, horizon, counting⟩ rt .zero s
        a.cadence.firstUpdate) : h ∈ Fleet.solo ⟨a, horizon, counting⟩ rt .zero s n := by
      rw [← htake] at hmem
      exact List.mem_of_mem_take hmem
    rw [htake]
    exact Fleet.exists_update hcounts hwell.memory.capacity_le henabled hwell.cadence.interval_pos
      hthreshold hlarge (fun h hmem => hsmooth h (hfirst hmem)) fun h hmem => hbusy h (hfirst hmem)

/-- Room for 4 records is too little for a batch of 6, and room for 16 is enough. -/
theorem warning_exact_cartpole :
    (∃ a, Agent.decode .standard (Agent.cartpole 4) = .ok a ∧ a.WarnsOfUpdates ∧
      ∀ (σ : Type) (rt : Runtime σ) (f : Fleet σ) (es : List Event), ∀ h ∈ (f.run ⟨a, 100, .around⟩ rt es).1,
        ∀ request answer, .update request answer ∉ h.exchanges) ∧
    ∃ a, Agent.decode .standard (Agent.cartpole 16) = .ok a ∧ ¬ a.WarnsOfUpdates ∧
      a.cadence.firstUpdate = 8 ∧
      ∃ h ∈ (Fleet.solo ⟨a, 100, .around⟩ (Runtime.steady ⟨1, true⟩) .zero () 10).take 8, ∃ request loss,
        .update request (.ok loss) ∈ h.exchanges := by
  constructor
  · obtain ⟨a, ha, hsmall⟩ : ∃ a, Agent.decode .standard (Agent.cartpole 4) = .ok a ∧
      a.memory.capacity < a.cadence.threshold := ⟨_, rfl, by decide⟩
    obtain ⟨hwarns, hnever, -⟩ := warning_exact ha
    exact ⟨a, ha, hwarns.mpr hsmall, fun σ rt f es h hmem =>
      (hnever (hwarns.mpr hsmall) σ 100 .around rt f es h hmem).2⟩
  · let rt := Runtime.steady ⟨1, true⟩
    obtain ⟨a, ha, hlarge, henabled, hfirst, hsmooth, hbusy⟩ :
        ∃ a, Agent.decode .standard (Agent.cartpole 16) = .ok a ∧
          a.cadence.threshold ≤ a.memory.capacity ∧ a.cadence.enabled = true ∧
          a.cadence.firstUpdate = 8 ∧ (∀ h ∈ Fleet.solo ⟨a, 100, .around⟩ rt .zero () 10, h.Smooth) ∧
          ∀ h ∈ Fleet.solo ⟨a, 100, .around⟩ rt .zero () 10, ∀ o ∈ h.observations, o.IsBusy :=
      ⟨_, rfl, by decide, rfl, rfl, by decide, by decide⟩
    obtain ⟨hwarns, -, hsoon⟩ := warning_exact ha
    have hsilent : ¬ a.WarnsOfUpdates := fun hwarned => Nat.not_le_of_lt (hwarns.mp hwarned) hlarge
    have hfits : a.cadence.firstUpdate ≤ maxCount := by
      rw [hfirst]
      decide
    refine ⟨a, ha, hsilent, hfirst, ?_⟩
    rw [← hfirst]
    exact hsoon hsilent henabled Unit 100 .around rt () 10 (fun _ => hfits) (by omega) hsmooth hbusy

end Training

end Regimen
