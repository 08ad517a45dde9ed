import Regimen.Proofs.Binary64
import Regimen.Proofs.WellFormed

/-!
# Schedules between their ends

A document is checked at the two ends of a schedule, and an agent reads the value at any of its steps.
What lies between is clamped to the ends, which helps only against numbers: an undefined one would pass.
Differences of the ends may overflow and quotients may underflow, but **no value of an accepted schedule is
undefined, and every value lies in the range that the ends were checked against**
(`Agent.inRange_of_decode`).

The arithmetic is that of the processor. Of powers it is taken that they are defined for a base of zero or
more and a fraction as exponent (`PowersDefined`).
-/

namespace Regimen

open Binary64

/-- Powers are defined for a base that is not less than zero and a fraction as exponent. -/
def PowersDefined (power : Float → Float → Float) : Prop :=
  ∀ x y, 0.0 ≤ x → 0.0 < y → y < 1.0 → ¬(power x y).isNaN

/-- The operations of the processor, but for powers. -/
def Arithmetic.withPower (power : Float → Float → Float) : Arithmetic := { Arithmetic.machine with power }

/-! ### Bounds -/

section Clamped

variable {x y z : Float}

theorem between_lesser_greater (hx : ¬x.isNaN) (hy : ¬y.isNaN) :
    (lesser x y ≤ x ∧ x ≤ greater x y) ∧ lesser x y ≤ y ∧ y ≤ greater x y := by
  have hx' := le_rfl hx
  have hy' := le_rfl hy
  unfold lesser greater
  simp only [hy, Bool.false_eq_true, false_or]
  split <;> split
  · exact ⟨⟨hx', hx'⟩, le_of_lt ‹_›, le_of_lt ‹_›⟩
  · exact ⟨⟨hx', le_of_lt ‹_›⟩, le_of_lt ‹_›, hy'⟩
  · exact ⟨⟨le_of_lt ‹_›, hx'⟩, hy', le_of_lt ‹_›⟩
  · exact ⟨⟨le_of_not_lt hx hy ‹_›, le_of_not_lt hy hx ‹_›⟩, hy', hy'⟩

/-- A number between two bounds is a number, and it lies between them. -/
theorem clamped_bounds {least greatest : Float} (h : least ≤ greatest) (hx : ¬x.isNaN) :
    ¬(clamped least greatest x).isNaN ∧ least ≤ clamped least greatest x ∧
      clamped least greatest x ≤ greatest := by
  obtain ⟨hleast, hgreatest, -⟩ := le_iff.mp h
  unfold clamped
  dsimp only
  split
  · rw [if_neg fun hlt => (lt_iff.mp hlt).2.2.not_ge (le_iff.mp h).2.2]
    exact ⟨hleast, le_rfl hleast, h⟩
  · split
    · exact ⟨hgreatest, h, le_rfl hgreatest⟩
    · exact ⟨hx, le_of_not_lt hx hleast ‹_›, le_of_not_lt hgreatest hx ‹_›⟩

end Clamped

/-! ### The way from one end to the other -/

section Between

variable {power : Float → Float → Float} {x y p : Float}

/-- The part of the way that is done is a number. -/
theorem not_isNaN_progressIn {step total : Nat} (hstep : step ≤ maxCount) (htotal : total ≤ maxCount) :
    ¬(progressIn (.withPower power) step total).isNaN := by
  have hlt {n : Nat} (h : n ≤ maxCount) : n < 2 ^ 64 := Nat.lt_succ_of_le h
  unfold progressIn
  split
  · decide
  · have hquotient : ¬(Float.ofNat step / Float.ofNat total).isNaN :=
      not_isNaN_div (not_isNaN_ofNat (hlt hstep)) (regular_ofNat (Nat.pos_of_ne_zero ‹_›) (hlt htotal))
    exact (clamped_bounds (by decide) hquotient).1

/-- What a curve gives between its ends is a number. The differences may be infinite, and are multiplied by
numbers other than zero alone; so is the quotient's power, by an end. -/
theorem not_isNaN_between (hpower : PowersDefined power) (curve : Curve) (hx : x.isFinite)
    (hy : y.isFinite) (hends : curve = .exponential → Schedule.Proportional x y) (hpos : 0.0 < p)
    (hlt : p < 1.0) : ¬(curve.between (.withPower power) x y p).isNaN := by
  cases curve with
  | linear =>
    have hproduct : ¬((y - x) * p).isNaN :=
      not_isNaN_mul' (not_isNaN_sub hy hx) (regular_of_fraction hpos hlt)
    exact not_isNaN_add hx hproduct
  | polynomial =>
    have hproduct : ¬((x - y) * ((1.0 - p) * (1.0 - p))).isNaN :=
      not_isNaN_mul' (not_isNaN_sub hx hy) (regular_square_one_sub hpos hlt)
    exact not_isNaN_add hy hproduct
  | exponential =>
    obtain ⟨hx0, hy0, hsign⟩ := hends rfl
    have hx := regular_of_isFinite hx hx0
    have hy := regular_of_isFinite hy hy0
    exact not_isNaN_mul hx (hpower _ _ (nonneg_div hy hx hsign.symm) hpos hlt)

end Between

namespace Schedule

variable {power : Float → Float → Float} {s : Schedule} {step total : Nat}

theorem not_isNaN_progressAt {window : Option Window}
    (hw : ∀ w ∈ window, 0 < w.length ∧ w.length ≤ maxCount) (hstep : step ≤ maxCount)
    (htotal : total ≤ maxCount) : ¬(progressAt (.withPower power) window step total).isNaN := by
  cases window with
  | none => exact not_isNaN_progressIn hstep htotal
  | some w =>
    exact not_isNaN_progressIn (Nat.le_trans (Nat.sub_le step w.start) hstep) (hw w rfl).2

theorem Sound.ends_bounds (h : s.Sound) : (s.least ≤ s.initial ∧ s.initial ≤ s.greatest) ∧
    s.least ≤ s.final ∧ s.final ≤ s.greatest :=
  between_lesser_greater (not_isNaN_of_isFinite h.initial) (not_isNaN_of_isFinite h.final)

/-- **Values are numbers, and they lie between the ends.** -/
theorem Sound.valueIn_bounds (h : s.Sound) (hpower : PowersDefined power) (hstep : step ≤ maxCount)
    (htotal : total ≤ maxCount) :
    ¬(s.valueIn (.withPower power) step total).isNaN ∧
      s.least ≤ s.valueIn (.withPower power) step total ∧
      s.valueIn (.withPower power) step total ≤ s.greatest := by
  have hinitial := not_isNaN_of_isFinite h.initial
  have hfinal := not_isNaN_of_isFinite h.final
  obtain ⟨⟨hlow, hhigh⟩, hlow', hhigh'⟩ := h.ends_bounds
  cases s with
  | constant value => exact ⟨hinitial, hlow, hhigh⟩
  | curved curve x y window =>
    have hp : ¬(progressAt (.withPower power) window step total).isNaN :=
      not_isNaN_progressAt h.window hstep htotal
    unfold valueIn
    dsimp only
    split
    · exact ⟨hinitial, hlow, hhigh⟩
    split
    · exact ⟨hfinal, hlow', hhigh'⟩
    rename_i hpos hlt
    have hvalue := not_isNaN_between hpower curve h.initial h.final ?_ (lt_of_not_le hp (by decide) hpos)
      (lt_of_not_le (by decide) hp hlt)
    · exact clamped_bounds (le_trans hlow hhigh) hvalue
    · rintro rfl
      exact h.proportional _ _ _ rfl

/-- Where the ends lie in a range, so does what is between them. -/
theorem Within.contains {range : Range} (h : s.Within range) {x : Float} (hlow : s.least ≤ x)
    (hhigh : x ≤ s.greatest) : range.Contains x := by
  obtain ⟨hleast, hgreatest⟩ := h
  cases range with
  | positive => exact lt_of_lt_of_le hleast hlow
  | nonNegative => exact le_trans hleast hlow
  | unit => exact ⟨le_trans hleast.1 hlow, le_trans hhigh hgreatest.2⟩
  | positiveUnit => exact ⟨lt_of_lt_of_le hleast.1 hlow, le_trans hhigh hgreatest.2⟩

end Schedule

/-! ### The schedules of an agent -/

namespace Agent

/-- The schedules of a type, each with the range that its values are held to. -/
def Variant.schedules : Variant → List (Schedule × Range)
  | .dqn v | .apex v => v.exploration.toList.map fun e => (e.epsilon, .unit)
  | .ppo q => (q.clipRatio, .positiveUnit) :: (q.entropyWeight.toList.map (·, .nonNegative) ++
      q.valueOptimizer.toList.map fun o => (o.learningRate, .positive))

/-- The schedules of an agent, each with the range that its values are held to: learning rates, epsilon,
the clip ratio and the weight of the entropy. -/
def schedules (a : Agent) : List (Schedule × Range) :=
  (a.optimizer.learningRate, .positive) :: a.variant.schedules

end Agent

theorem Optimizer.yields_learningRate (policy : UnknownFields) : (reading policy).Yields fun o =>
    o.learningRate.Sound ∧ o.learningRate.Within .positive := by
  refine .bind (.any _) fun method _ => ?_
  refine .bind (.field (Schedule.yields_decodeIn_sound _)) fun rate hrate => ?_
  exact .bind (.any _) fun _ _ => .bind (.any _) fun _ _ => .pure hrate

theorem Exploration.yields_epsilonDecode_sound (policy : UnknownFields) :
    (epsilonDecode policy).Yields Schedule.Sound := by
  have hwrapped : (wrapped policy).Yields Schedule.Sound :=
    .bind (.field Schedule.yields_decode_sound) fun _ hs => .bind (.any _) fun _ _ => .pure hs
  intro path v s h
  unfold epsilonDecode at h
  split at h
  · split at h
    · exact hwrapped.decode h
    · exact Schedule.yields_decode_sound h
  · exact Schedule.yields_decode_sound h

theorem Exploration.yields_epsilon (policy : UnknownFields) : (reading policy).Yields fun e =>
    e.epsilon.Sound ∧ e.epsilon.Within .unit := by
  refine .bind (.any _) fun place _ => ?_
  refine .bind (.field (yields_epsilonDecode_sound policy)) fun epsilon hepsilon => ?_
  refine .bind (.any _) fun _ _ => ?_
  refine .bind (.ensure _) fun _ hwithin => ?_
  exact .bind (.any _) fun _ _ => .pure ⟨hepsilon, hwithin⟩

namespace Agent

theorem yields_variantReading_schedules (policy : UnknownFields) (memory : Memory) (kind : Kind) :
    (variantReading policy memory kind).Yields fun v =>
      ∀ entry ∈ v.schedules, entry.1.Sound ∧ entry.1.Within entry.2 := by
  have hvalues : (valueReading policy).Yields fun v =>
      ∀ e ∈ v.exploration, e.epsilon.Sound ∧ e.epsilon.Within .unit := by
    refine .bind (.any _) fun steps _ => ?_
    refine .bind (.field? (Exploration.yields_epsilon policy).decode) fun exploration hexploration => ?_
    refine .bind (.any _) fun dueling _ => .bind (.any _) fun double _ => ?_
    exact .bind (.any _) fun huber _ => .pure hexploration
  have hpolicy : (policyReading policy).Yields fun q =>
      (q.clipRatio.Sound ∧ q.clipRatio.Within .positiveUnit) ∧
      (∀ w ∈ q.entropyWeight, w.Sound ∧ w.Within .nonNegative) ∧
      ∀ o ∈ q.valueOptimizer, o.learningRate.Sound ∧ o.learningRate.Within .positive := by
    have hdefault : (Schedule.constant 0.2).Sound ∧ (Schedule.constant 0.2).Within .positiveUnit :=
      ⟨Schedule.sound_constant (by decide), by decide⟩
    refine .bind (.fieldD (Schedule.yields_decodeIn_sound _) hdefault) fun clipRatio hclip => ?_
    refine .bind (.any _) fun gaeLambda _ => ?_
    refine .bind (.field? (Schedule.yields_decodeIn_sound _)) fun entropyWeight hweight => ?_
    refine .bind (.any _) fun valueNetwork _ => ?_
    refine .bind (.field? (Optimizer.yields_learningRate policy).decode) fun valueOptimizer hrate => ?_
    refine .bind (.any _) fun place _ => .bind (.any _) fun _ _ => ?_
    refine .bind (.any _) fun standardize _ => ?_
    exact .bind (.any _) fun wholeEpisodes _ => .pure ⟨hclip, hweight, hrate⟩
  have hepsilon {v : ValueSettings} (hv : ∀ e ∈ v.exploration, e.epsilon.Sound ∧ e.epsilon.Within .unit) :
      ∀ entry ∈ v.exploration.toList.map fun e => (e.epsilon, Range.unit),
        entry.1.Sound ∧ entry.1.Within entry.2 :=
    List.forall_mem_map.mpr fun e he => hv e (Option.mem_toList.mp he)
  cases kind with
  | dqn => exact .bind hvalues fun v hv => .pure (hepsilon hv)
  | apex =>
    exact .bind (.any _) fun _ _ => .bind (.any _) fun _ _ => .bind hvalues fun v hv => .pure (hepsilon hv)
  | ppo =>
    refine .bind hpolicy fun q ⟨hclip, hweight, hrate⟩ => .pure ?_
    refine List.forall_mem_cons.mpr ⟨hclip, List.forall_mem_append.mpr ⟨?_, ?_⟩⟩
    · exact List.forall_mem_map.mpr fun w hw => hweight w (Option.mem_toList.mp hw)
    · exact List.forall_mem_map.mpr fun o ho => hrate o (Option.mem_toList.mp ho)

theorem schedules_of_decode {options : Options} {document : Value} {a : Agent}
    (h : decode options document = .ok a) :
    ∀ entry ∈ a.schedules, entry.1.Sound ∧ entry.1.Within entry.2 := by
  obtain ⟨entries, buffer, -, hparts⟩ := parts_of_decode h
  obtain ⟨u, t, hvariant⟩ := hparts.variant
  refine List.forall_mem_cons.mpr ⟨?_, yields_variantReading_schedules _ _ _ hvariant⟩
  exact (Optimizer.yields_learningRate _).decode.read hparts.optimizer

/-- **Every value of an accepted schedule is a number within range**, at every step of training of any
length: learning rates are positive, epsilon is a probability, the clip ratio is a positive one, and the
weight of the entropy is not negative. -/
theorem inRange_of_decode {power : Float → Float → Float} (hpower : PowersDefined power)
    {options : Options} {document : Value} {a : Agent} (h : decode options document = .ok a)
    {s : Schedule} {range : Range} (hs : (s, range) ∈ a.schedules) {step total : Nat}
    (hstep : step ≤ maxCount) (htotal : total ≤ maxCount) :
    ¬(s.valueIn (.withPower power) step total).isNaN ∧
      s.least ≤ s.valueIn (.withPower power) step total ∧
      s.valueIn (.withPower power) step total ≤ s.greatest ∧
      range.Contains (s.valueIn (.withPower power) step total) := by
  obtain ⟨hsound, hwithin⟩ := schedules_of_decode h _ hs
  obtain ⟨hnumber, hlow, hhigh⟩ := hsound.valueIn_bounds hpower hstep htotal
  exact ⟨hnumber, hlow, hhigh, hwithin.contains hlow hhigh⟩

/-- An agent whose learning rate falls by the same factor in every step. -/
def acrobot : Value := .object [
  ("type", .text "dqn"),
  ("memory_spec", .object [("type", .text "replay"), ("capacity", .number (.integer 100))]),
  ("network_spec", .list [.object [("type", .text "dense"), ("units", .number (.integer 10))]]),
  ("update_spec", .object [("update_interval", .number (.integer 4)),
    ("batch_size", .number (.integer 8)), ("sync_interval", .number (.integer 100))]),
  ("optimizer_spec", .object [("type", .text "adam"), ("learning_rate", .list [
    .text "exponential", .number (.decimal 1.0), .number (.decimal 0.25)])])]

/-- Half way through the training, powers are square roots. -/
theorem inRange_of_decode_acrobot :
    PowersDefined (fun x _ => x.sqrt) ∧ ∃ a s, decode .standard acrobot = .ok a ∧
      (s, .positive) ∈ a.schedules ∧ s.valueIn (.withPower fun x _ => x.sqrt) 50 100 = 0.5 ∧
      0.0 < s.valueIn (.withPower fun x _ => x.sqrt) 50 100 := by
  have hpowers : PowersDefined fun x _ => x.sqrt := fun x _ hx _ _ => not_isNaN_sqrt hx
  obtain ⟨a, s, ha, hs, hvalue⟩ : ∃ a s, decode .standard acrobot = .ok a ∧
      (s, .positive) ∈ a.schedules ∧ s.valueIn (.withPower fun x _ => x.sqrt) 50 100 = 0.5 :=
    ⟨_, _, rfl, List.mem_cons_self, by decide +kernel⟩
  refine ⟨hpowers, a, s, ha, hs, hvalue, ?_⟩
  exact (inRange_of_decode hpowers ha hs (by decide) (by decide)).2.2.2

end Agent

end Regimen
