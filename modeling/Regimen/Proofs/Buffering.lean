import Regimen.Proofs.Accounts

/-!
# Buffered records

A learner remembers how many records it has observed, and counts them as far as its counter goes: each
step adds its own, and stops at `maxCount`. Stopping along the way is the same as stopping once at the
end, so what is remembered is the true sum, cut off at `maxCount`; and no memory has room for more.
**The number of buffered records is the sum of the records that were observed, or the capacity**
(`buffersExactly_run`), whatever other learners do in between, wherever the tally moves to and however
many steps fail after they have observed.

Records never get lost, so that number does not go down; and since collecting ends where enough is
buffered, whether or not the step makes a decision, an agent that has stopped collecting does not begin
again.
-/

namespace Regimen.Training

/-! ### Records in exchanges -/

/-- The number of records that were observed. -/
def recordsIn (xs : List Exchange) : Nat := ((xs.filterMap Exchange.seen?).map (·.2.records)).sum

theorem recordsIn_append (xs ys : List Exchange) :
    recordsIn (xs ++ ys) = recordsIn xs + recordsIn ys := by
  simp only [recordsIn, List.filterMap_append, List.map_append, List.sum_append]

theorem recordsIn_of_seen {xs : List Exchange} {seen : List (Nat × Observation)}
    (h : xs.filterMap Exchange.seen? = seen) : recordsIn xs = (seen.map (·.2.records)).sum := by
  rw [recordsIn, h]

theorem exchangesOf_append (worker : Nat) (hs hs' : List Happening) :
    exchangesOf worker (hs ++ hs') = exchangesOf worker hs ++ exchangesOf worker hs' :=
  List.flatMap_append

/-! ### One step -/

section

variable {p : Plan} {t t' : Tally} {l l' : Learner} {xs : List Exchange} {n : Nat}

/-- **Counting stops once.** If a learner remembers the true sum as far as its counter goes, it still
does so after a step, wherever that step fails. -/
theorem Steps.observed_eq {r : Except Failure Report} (h : Steps p t l xs r t' l')
    (hl : l.observed = min n maxCount) : l'.observed = min (n + recordsIn xs) maxCount := by
  rcases h.seen_cases with ⟨hseen, -, rfl⟩ | ⟨o, hseen, -, hobserved⟩
  · rw [hl, recordsIn_of_seen hseen]
    rfl
  · have hrecords : recordsIn xs = o.records := recordsIn_of_seen hseen
    rw [hobserved, l.observed_taken, hl, hrecords]
    omega

/-- A learner that remembers the true sum as far as its counter goes has it in memory as far as there
is room. -/
theorem Plan.buffered_eq (hcapacity : p.agent.memory.capacity ≤ maxCount)
    (hl : l.observed = min n maxCount) : p.buffered l = min p.agent.memory.capacity n := by
  rw [Plan.buffered, Memory.held, hl]
  omega

/-- A report tells what the learner has in memory afterwards, and collecting is to have too little
there. -/
theorem Steps.report_buffered {report : Report} (h : Steps p t l xs (.ok report) t' l') :
    report.buffered = p.buffered l' ∧
      (report.phase = .collecting ↔ report.buffered < p.agent.cadence.threshold) := by
  cases h with
  | completed o loss synced hu hs =>
    constructor
    · unfold Plan.buffered
      rw [hs.observed_eq, hu.observed_eq]
    · exact phaseAt_eq_collecting_iff

end

/-! ### Runs -/

namespace Fleet

variable {σ : Type} {p : Plan} {f f' : Fleet σ} {h : Happening} {past hs : List Happening}

/-- What every learner remembers is the true sum of the records it has observed, as far as a counter
goes. -/
def Remembers (past : List Happening) (f : Fleet σ) : Prop :=
  ∀ worker l, f.learners[worker]? = some l →
    l.observed = min (recordsIn (exchangesOf worker past)) maxCount

theorem remembers_start (start : Tally) (workers : Nat) (s : σ) :
    Remembers [] (Fleet.start start workers s) := by
  intro worker l hl
  obtain rfl : l = .new := eq_new_of_start hl
  rfl

theorem Remembers.happens (hf : Remembers past f) (hh : Happens p f h f') :
    Remembers (past ++ [h]) f' := by
  intro worker l' hl'
  have hpast : exchangesOf worker (past ++ [h]) = exchangesOf worker past ++ h.exchangesOf worker := by
    rw [exchangesOf_append]
    exact congrArg _ (List.append_nil _)
  rw [hpast, recordsIn_append]
  rcases hh.account_cases worker with ⟨l, l₁, r, -, hl, hl₁, hsteps⟩ | ⟨heq, hnil, -⟩
  · obtain rfl : l₁ = l' := Option.some.inj (hl₁.symm.trans hl')
    exact hsteps.observed_eq (hf worker l hl)
  · rw [hnil]
    exact hf worker l' (heq ▸ hl')

theorem Remembers.runs (hf : Remembers past f) (hr : Runs p f hs f') : Remembers (past ++ hs) f' := by
  induction hr generalizing past with
  | nil f => rwa [List.append_nil]
  | cons hh _ ih =>
    rw [← List.singleton_append, ← List.append_assoc]
    exact ih (hf.happens hh)

/-- The more has happened, the more records were observed. -/
theorem recordsIn_take_le (worker : Nat) (hs : List Happening) {i j : Nat} (hij : i ≤ j) :
    recordsIn (exchangesOf worker (hs.take i)) ≤ recordsIn (exchangesOf worker (hs.take j)) := by
  obtain ⟨k, rfl⟩ := Nat.exists_eq_add_of_le hij
  rw [List.take_add, exchangesOf_append, recordsIn_append]
  exact Nat.le_add_right _ _

variable {rt : Runtime σ} {start : Tally} {workers : Nat} {s : σ} {es : List Event} {worker : Nat}

/-- What a learner has in memory after some of the events. -/
theorem buffered_take (hcapacity : p.agent.memory.capacity ≤ maxCount) {i : Nat} {l : Learner}
    (hl : ((Fleet.start start workers s).run p rt (es.take i)).2.learners[worker]? = some l) :
    p.buffered l = min p.agent.memory.capacity
      (recordsIn (exchangesOf worker (((Fleet.start start workers s).run p rt es).1.take i))) := by
  have hf := (remembers_start start workers s).runs
    (runs_run p rt (Fleet.start start workers s) (es.take i))
  rw [List.nil_append, ← take_run] at hf
  exact p.buffered_eq hcapacity (hf worker l hl)

/-- What a report of a run tells: the number of records that the learner has observed by then, and
whether this is too little. -/
theorem report_of_run (hcapacity : p.agent.memory.capacity ≤ maxCount) {i : Nat} {report : Report}
    (hi : ((Fleet.start start workers s).run p rt es).1[i]? = some h) (hevent : h.event = .step worker)
    (hreport : h.outcome = some (.ok report)) :
    report.buffered = min p.agent.memory.capacity
      (recordsIn (exchangesOf worker (((Fleet.start start workers s).run p rt es).1.take (i + 1)))) ∧
    (report.phase = .collecting ↔ report.buffered < p.agent.cadence.threshold) := by
  have hh := happens_of_getElem? hi
  rcases hh.account_cases worker with ⟨l, l', r, houtcome, -, hl', hsteps⟩ | ⟨-, -, hnone⟩
  · obtain rfl : .ok report = r := Option.some.inj (hreport.symm.trans houtcome)
    obtain ⟨hbuffered, hphase⟩ := hsteps.report_buffered
    refine ⟨?_, hphase⟩
    have hf := (remembers_start start workers s).runs
      (runs_run p rt (Fleet.start start workers s) (es.take i))
    have hobserved := hf.happens hh worker l' hl'
    have htake : ((Fleet.start start workers s).run p rt es).1.take (i + 1) =
        ((Fleet.start start workers s).run p rt (es.take i)).1 ++ [h] := by
      rw [List.take_add_one, hi, take_run]
      rfl
    rw [hbuffered, htake]
    exact p.buffered_eq hcapacity hobserved
  · rw [hnone hevent] at hreport
    cases hreport

/-- **What a learner has in memory is exact**, in the course of what happens to a fleet. -/
structure BuffersExactly (p : Plan) (rt : Runtime σ) (f : Fleet σ) (es : List Event) (worker : Nat) :
    Prop where
  /-- Memory holds all records that were observed, or as many as there is room for. -/
  held : ∀ l, (f.run p rt es).2.learners[worker]? = some l →
    p.buffered l =
      min p.agent.memory.capacity (recordsIn (exchangesOf worker (f.run p rt es).1))
  /-- The reports tell this number. -/
  reported : ∀ (i : Nat) (h : Happening) (report : Report), (f.run p rt es).1[i]? = some h →
    h.event = .step worker → h.outcome = some (.ok report) → report.buffered =
      min p.agent.memory.capacity (recordsIn (exchangesOf worker ((f.run p rt es).1.take (i + 1))))
  /-- It never goes down. -/
  growing : ∀ i j l l', i ≤ j → (f.run p rt (es.take i)).2.learners[worker]? = some l →
    (f.run p rt (es.take j)).2.learners[worker]? = some l' → p.buffered l ≤ p.buffered l'
  /-- Whoever has stopped collecting does not begin again. -/
  lasting : ∀ (i j : Nat) (h h' : Happening) (report report' : Report), i < j →
    (f.run p rt es).1[i]? = some h → h.event = .step worker → h.outcome = some (.ok report) →
    (f.run p rt es).1[j]? = some h' → h'.event = .step worker → h'.outcome = some (.ok report') →
    report.phase ≠ .collecting → report'.phase ≠ .collecting

/-- **Buffered records are counted exactly, and collecting does not come back.** Whatever document is
accepted, and whatever learners do that start together, in whatever order, wherever their steps fail
and however the tally moves from outside. -/
theorem buffersExactly_run {options : Options} {document : Value} {a : Agent}
    (hdecode : Agent.decode options document = .ok a) (horizon : Nat) (counting : Counting)
    (rt : Runtime σ) (start : Tally) (workers : Nat) (s : σ) (es : List Event) (worker : Nat) :
    BuffersExactly ⟨a, horizon, counting⟩ rt (Fleet.start start workers s) es worker := by
  obtain ⟨_, _, -, hparts⟩ := Agent.parts_of_decode hdecode
  have hcapacity : a.memory.capacity ≤ maxCount := hparts.wellFormed.memory.capacity_le
  constructor
  · intro l hl
    have hbuffered := buffered_take (i := es.length) hcapacity (by rwa [List.take_length])
    rwa [take_run, List.take_length] at hbuffered
  · intro i h report hi hevent hreport
    exact (report_of_run hcapacity hi hevent hreport).1
  · intro i j l l' hij hl hl'
    rw [buffered_take hcapacity hl, buffered_take hcapacity hl']
    exact min_le_min_left _ (recordsIn_take_le worker _ hij)
  · intro i j h h' report report' hij hi hevent hreport hj hevent' hreport' hphase
    obtain ⟨hbuffered, hcollecting⟩ := report_of_run hcapacity hi hevent hreport
    obtain ⟨hbuffered', hcollecting'⟩ := report_of_run hcapacity hj hevent' hreport'
    have hle : report.buffered ≤ report'.buffered := by
      rw [hbuffered, hbuffered']
      exact min_le_min_left _ (recordsIn_take_le worker _ (Nat.succ_le_succ hij.le))
    have henough : a.cadence.threshold ≤ report.buffered := Nat.le_of_not_lt fun hlt =>
      hphase (hcollecting.mpr hlt)
    intro hphase'
    exact absurd (hcollecting'.mp hphase') (Nat.not_lt_of_le (henough.trans hle))

end Fleet

/-- Two learners take turns on a memory for 8 records. Each observes 5 records in a step, the first two
updates fail, and by its second step each learner has filled its memory. -/
theorem buffersExactly_run_pendulum :
    let rt : Runtime Unit := { Runtime.warmingUp 2 with observe _ s := (.ok ⟨5, false⟩, s) }
    let es : List Event := [.step 0, .step 1, .advance 10, .step 0, .endEpisode, .step 1, .step 0]
    ∃ a, Agent.decode .standard Agent.pendulum = .ok a ∧
      Fleet.BuffersExactly ⟨a, 100, .around⟩ rt (Fleet.start .zero 2 ()) es 0 ∧
      ∃ l, ((Fleet.start .zero 2 ()).run ⟨a, 100, .around⟩ rt es).2.learners[0]? = some l ∧
        (⟨a, 100, .around⟩ : Plan).buffered l = 8 ∧
        recordsIn (exchangesOf 0 ((Fleet.start .zero 2 ()).run ⟨a, 100, .around⟩ rt es).1) = 15 := by
  intro rt es
  obtain ⟨a, ha, l, hl, hbuffered, hrecords⟩ : ∃ a, Agent.decode .standard Agent.pendulum = .ok a ∧
      ∃ l, ((Fleet.start .zero 2 ()).run ⟨a, 100, .around⟩ rt es).2.learners[0]? = some l ∧
        (⟨a, 100, .around⟩ : Plan).buffered l = 8 ∧
        recordsIn (exchangesOf 0 ((Fleet.start .zero 2 ()).run ⟨a, 100, .around⟩ rt es).1) = 15 := by
    refine ⟨_, rfl, _, rfl, ?_, ?_⟩
    · decide +kernel
    · decide +kernel
  exact ⟨a, ha, Fleet.buffersExactly_run ha 100 .around rt .zero 2 () es 0, l, hl, hbuffered, hrecords⟩

end Regimen.Training
