import Regimen.Proofs.Windows

/-!
# Schedules lead one way

That epsilon never rises is checked at the ends of its schedule alone, on the word that every curve leads
one way. It does: a curve is put together from operations that keep the order or turn it round
(`Curve.between_mono`), and the ends, which are returned as they were written, bound what is computed between
them (`Schedule.Sound.valueIn_related`). So **an accepted schedule whose final value is not above the initial
one never rises, one whose final value is not below it never falls, and epsilon never rises**
(`Schedule.oneWay_of_decode`).

This holds where the ends are so far apart that their difference is infinite, and of exponential schedules
between numbers of either sign, whose quotient may be infinite or zero. Of powers it is taken that they are
monotone in a fraction as exponent (`MonotonePowers`).
-/

namespace Regimen

open Binary64

/-- Powers with a fraction as exponent grow with it where the base is one or more, and shrink where the base
lies between zero and one. -/
structure MonotonePowers (power : Float → Float → Float) : Prop where
  /-- They grow. -/
  grow : ∀ x p q, 1.0 ≤ x → 0.0 < p → p ≤ q → q < 1.0 → power x p ≤ power x q
  /-- They shrink. -/
  shrink : ∀ x p q, 0.0 ≤ x → x ≤ 1.0 → 0.0 < p → p ≤ q → q < 1.0 → power x q ≤ power x p

/-- What can be compared is defined. -/
theorem MonotonePowers.defined {power : Float → Float → Float} (h : MonotonePowers power) :
    PowersDefined power := by
  intro x p hx hpos hlt
  obtain ⟨-, hnumber, -⟩ := le_iff.mp hx
  have hp := le_rfl (lt_iff.mp hlt).1
  rcases le_or_le hnumber (by decide : ¬Float.isNaN 1.0) with hle | hge
  · exact (le_iff.mp (h.shrink x p p hx hle hpos hp hlt)).1
  · exact (le_iff.mp (h.grow x p p hge hpos hp hlt)).1

/-! ### Curves -/

section Curves

variable {power : Float → Float → Float} {x y p q : Float}

theorem linear_mono (hx : x.isFinite) (hy : y.isFinite) (hpos : 0.0 < p) (h : p ≤ q) (hlt : q < 1.0) :
    (x ≤ y → x + (y - x) * p ≤ x + (y - x) * q) ∧ (y ≤ x → x + (y - x) * q ≤ x + (y - x) * p) := by
  have hdifference := not_isNaN_sub hy hx
  have hp := not_isNaN_mul' hdifference (regular_of_fraction hpos (lt_of_le_of_lt h hlt))
  have hq := not_isNaN_mul' hdifference (regular_of_fraction (lt_of_lt_of_le hpos h) hlt)
  constructor <;> intro hends <;> apply add_le_add_left hx
  · exact mul_le_mul_left (sub_nonneg hy hx hends) (.inr (le_of_lt hpos)) h hp hq
  · exact mul_le_mul_left_of_nonpos (sub_nonpos hy hx hends) (.inr (le_of_lt hpos)) h hp hq

theorem polynomial_mono (hx : x.isFinite) (hy : y.isFinite) (hpos : 0.0 < p) (h : p ≤ q) (hlt : q < 1.0) :
    (x ≤ y → y + (x - y) * ((1.0 - p) * (1.0 - p)) ≤ y + (x - y) * ((1.0 - q) * (1.0 - q))) ∧
      (y ≤ x → y + (x - y) * ((1.0 - q) * (1.0 - q)) ≤ y + (x - y) * ((1.0 - p) * (1.0 - p))) := by
  have hdifference := not_isNaN_sub hx hy
  have hp := not_isNaN_mul' hdifference (regular_square_one_sub hpos (lt_of_le_of_lt h hlt))
  have hq := not_isNaN_mul' hdifference (regular_square_one_sub (lt_of_lt_of_le hpos h) hlt)
  obtain ⟨hnonneg, hsquare⟩ := square_one_sub_le hpos h hlt
  constructor <;> intro hends <;> apply add_le_add_left hy
  · exact mul_le_mul_left_of_nonpos (sub_nonpos hx hy hends) (.inr hnonneg) hsquare hq hp
  · exact mul_le_mul_left (sub_nonneg hx hy hends) (.inr hnonneg) hsquare hq hp

/-- The quotient of ends in order is compared with one, and the way round depends on their sign. -/
theorem exponential_mono (hpower : MonotonePowers power) (hx : x.isFinite) (hy : y.isFinite)
    (hends : Schedule.Proportional x y) (hpos : 0.0 < p) (h : p ≤ q) (hlt : q < 1.0) :
    (x ≤ y → x * power (y / x) p ≤ x * power (y / x) q) ∧
      (y ≤ x → x * power (y / x) q ≤ x * power (y / x) p) := by
  obtain ⟨hx0, hy0, hsign⟩ := hends
  have hregular := regular_of_isFinite hx hx0
  have hquotient : 0.0 ≤ y / x := nonneg_div (regular_of_isFinite hy hy0) hregular hsign.symm
  have hnumber {r : Float} (hr : ¬r.isNaN) : ¬(x * r).isNaN := not_isNaN_mul hregular hr
  have hgrow (hone : 1.0 ≤ y / x) := hpower.grow _ p q hone hpos h hlt
  have hshrink (hone : y / x ≤ 1.0) := hpower.shrink _ p q hquotient hone hpos h hlt
  have hp := hnumber (hpower.defined _ p hquotient hpos (lt_of_le_of_lt h hlt))
  have hq := hnumber (hpower.defined _ q hquotient (lt_of_lt_of_le hpos h) hlt)
  by_cases hneg : x < 0.0
  · have hvalue : value (parts x) < 0 := value_zero ▸ value_lt hneg
    constructor <;> intro hle
    · apply mul_le_mul_left_of_nonpos (le_of_lt hneg) (.inl hx) (hshrink _) hq hp
      exact div_le_one hy hregular ((div_le_one_of_neg hvalue).mpr (value_le hle))
    · apply mul_le_mul_left_of_nonpos (le_of_lt hneg) (.inl hx) (hgrow _) hp hq
      exact one_le_div hy hregular ((one_le_div_of_neg hvalue).mpr (value_le hle))
  · have hpositive := pos_of_regular hregular hneg
    have hvalue : 0 < value (parts x) := value_zero ▸ value_lt hpositive
    constructor <;> intro hle
    · apply mul_le_mul_left (le_of_lt hpositive) (.inl hx) (hgrow _) hp hq
      exact one_le_div hy hregular ((one_le_div₀ hvalue).mpr (value_le hle))
    · apply mul_le_mul_left (le_of_lt hpositive) (.inl hx) (hshrink _) hq hp
      exact div_le_one hy hregular ((div_le_one₀ hvalue).mpr (value_le hle))

/-- Every curve leads one way. -/
theorem Curve.between_mono (hpower : MonotonePowers power) (curve : Curve) (hx : x.isFinite)
    (hy : y.isFinite) (hends : curve = .exponential → Schedule.Proportional x y) (hpos : 0.0 < p)
    (h : p ≤ q) (hlt : q < 1.0) :
    (x ≤ y → curve.between (.withPower power) x y p ≤ curve.between (.withPower power) x y q) ∧
      (y ≤ x → curve.between (.withPower power) x y q ≤ curve.between (.withPower power) x y p) := by
  cases curve with
  | linear => exact linear_mono hx hy hpos h hlt
  | polynomial => exact polynomial_mono hx hy hpos h hlt
  | exponential => exact exponential_mono hpower hx hy (hends rfl) hpos h hlt

end Curves

/-! ### Schedules -/

section Bounds

variable {x y z : Float}

theorem le_lesser (hx : z ≤ x) (hy : z ≤ y) : z ≤ lesser x y := by
  unfold lesser
  split
  · exact hx
  · exact hy

theorem greater_le (hx : x ≤ z) (hy : y ≤ z) : greater x y ≤ z := by
  unfold greater
  split
  · exact hx
  · exact hy

end Bounds

namespace Schedule

/-- The values never rise, from any step of training to a later one. -/
def NeverRises (A : Arithmetic) (s : Schedule) : Prop :=
  ∀ step step' total, step ≤ step' → step' ≤ maxCount → total ≤ maxCount →
    s.valueIn A step' total ≤ s.valueIn A step total

/-- The values never fall, from any step of training to a later one. -/
def NeverFalls (A : Arithmetic) (s : Schedule) : Prop :=
  ∀ step step' total, step ≤ step' → step' ≤ maxCount → total ≤ maxCount →
    s.valueIn A step total ≤ s.valueIn A step' total

variable {power : Float → Float → Float} {s : Schedule} {curve : Curve} {initial final : Float}
  {window : Option Window} {step step' total : Nat}

/-- **Values are related as the ends are and the curve is between them.** The ends are returned as they were
written, so that they have to be related to whatever lies between them. -/
theorem Sound.valueIn_related (hsound : (curved curve initial final window).Sound)
    (hpower : PowersDefined power) {R : Float → Float → Prop}
    (hinitial : ∀ v, lesser initial final ≤ v → v ≤ greater initial final → R initial v)
    (hfinal : ∀ v, lesser initial final ≤ v → v ≤ greater initial final → R v final)
    (hbetween : ∀ p q, 0.0 < p → p ≤ q → q < 1.0 →
      R (clamped (lesser initial final) (greater initial final)
          (curve.between (.withPower power) initial final p))
        (clamped (lesser initial final) (greater initial final)
          (curve.between (.withPower power) initial final q)))
    (h : step ≤ step') (hstep : step' ≤ maxCount) (htotal : total ≤ maxCount) :
    R ((curved curve initial final window).valueIn (.withPower power) step total)
      ((curved curve initial final window).valueIn (.withPower power) step' total) := by
  have hle : progressAt (.withPower power) window step total ≤
      progressAt (.withPower power) window step' total := progressAt_mono hsound.window h hstep htotal
  obtain ⟨hp, hq, -⟩ := le_iff.mp hle
  by_cases hp0 : progressAt (.withPower power) window step total ≤ 0.0
  · rw [valueIn_of_progressAt_le hp0]
    have hbounds := (hsound.valueIn_bounds hpower hstep htotal).2
    exact hinitial _ hbounds.1 hbounds.2
  by_cases hq1 : 1.0 ≤ progressAt (.withPower power) window step' total
  · rw [valueIn_of_le_progressAt hq1]
    have hbounds := (hsound.valueIn_bounds hpower (h.trans hstep) htotal).2
    exact hfinal _ hbounds.1 hbounds.2
  have hp1 : ¬1.0 ≤ progressAt (.withPower power) window step total := fun h => hq1 (le_trans h hle)
  have hq0 : ¬progressAt (.withPower power) window step' total ≤ 0.0 := fun h => hp0 (le_trans hle h)
  simp only [valueIn, hp0, hp1, hq0, hq1, if_false]
  exact hbetween _ _ (lt_of_not_le hp (by decide) hp0) hle (lt_of_not_le (by decide) hq hq1)

/-- Between the ends, values go the way that the ends give. -/
theorem Sound.clamped_between_mono (hsound : (curved curve initial final window).Sound)
    (hpower : MonotonePowers power) {p q : Float} (hpos : 0.0 < p) (h : p ≤ q) (hlt : q < 1.0) :
    (initial ≤ final →
      clamped (lesser initial final) (greater initial final)
          (curve.between (.withPower power) initial final p) ≤
        clamped (lesser initial final) (greater initial final)
          (curve.between (.withPower power) initial final q)) ∧
    (final ≤ initial →
      clamped (lesser initial final) (greater initial final)
          (curve.between (.withPower power) initial final q) ≤
        clamped (lesser initial final) (greater initial final)
          (curve.between (.withPower power) initial final p)) := by
  have hproportional : curve = .exponential → Proportional initial final := by
    rintro rfl
    exact hsound.proportional _ _ _ rfl
  obtain ⟨hup, hdown⟩ := curve.between_mono hpower hsound.initial hsound.final hproportional hpos h hlt
  have hbounds := hsound.ends_bounds.1
  have hle : lesser initial final ≤ greater initial final := le_trans hbounds.1 hbounds.2
  exact ⟨fun hends => clamped_mono hle (hup hends), fun hends => clamped_mono hle (hdown hends)⟩

theorem Sound.neverRises (hsound : s.Sound) (hpower : MonotonePowers power) (h : s.Falls) :
    s.NeverRises (.withPower power) := by
  intro step step' total hle hstep htotal
  cases s with
  | constant value => exact h
  | curved curve initial final window =>
    have h : final ≤ initial := h
    have hinitial : initial ≤ initial := le_rfl (not_isNaN_of_isFinite hsound.initial)
    have hfinal : final ≤ final := le_rfl (not_isNaN_of_isFinite hsound.final)
    apply hsound.valueIn_related hpower.defined (R := fun v v' => v' ≤ v) _ _ _ hle hstep htotal
    · intro v _ hv
      exact le_trans hv (greater_le hinitial h)
    · intro v hv _
      exact le_trans (le_lesser h hfinal) hv
    · intro p q hpos hpq hlt
      exact (hsound.clamped_between_mono hpower hpos hpq hlt).2 h

theorem Sound.neverFalls (hsound : s.Sound) (hpower : MonotonePowers power) (h : s.initial ≤ s.final) :
    s.NeverFalls (.withPower power) := by
  intro step step' total hle hstep htotal
  cases s with
  | constant value => exact h
  | curved curve initial final window =>
    have h : initial ≤ final := h
    have hinitial : initial ≤ initial := le_rfl (not_isNaN_of_isFinite hsound.initial)
    have hfinal : final ≤ final := le_rfl (not_isNaN_of_isFinite hsound.final)
    apply hsound.valueIn_related hpower.defined (R := fun v v' => v ≤ v') _ _ _ hle hstep htotal
    · intro v hv _
      exact le_trans (le_lesser hinitial h) hv
    · intro v _ hv
      exact le_trans hv (greater_le h hfinal)
    · intro p q hpos hpq hlt
      exact (hsound.clamped_between_mono hpower hpos hpq hlt).1 h

end Schedule

/-! ### Documents -/

theorem Exploration.yields_falls (policy : UnknownFields) : (reading policy).Yields fun e =>
    e.epsilon.Sound ∧ e.epsilon.Falls := by
  refine .bind (.any _) fun place _ => ?_
  refine .bind (.field (yields_epsilonDecode_sound policy)) fun epsilon hsound => ?_
  refine .bind (.any _) fun _ _ => .bind (.any _) fun _ _ => ?_
  exact .bind (.ensure _) fun _ hfalls => .pure ⟨hsound, hfalls⟩

namespace Schedule

/-- **Accepted schedules lead one way**, down where the final value is not above the initial one, and up where
it is not below it; so the epsilon of an accepted way of exploring never rises during training. -/
theorem oneWay_of_decode {power : Float → Float → Float} (hpower : MonotonePowers power) (path : Path)
    (v : Value) :
    (∀ s, decode path v = .ok s →
      (s.Falls → s.NeverRises (.withPower power)) ∧
        (s.initial ≤ s.final → s.NeverFalls (.withPower power))) ∧
      ∀ policy e, (Exploration.reading policy).decode path v = .ok e →
        e.epsilon.NeverRises (.withPower power) := by
  constructor
  · intro s hs
    have hsound := yields_decode_sound hs
    exact ⟨hsound.neverRises hpower, hsound.neverFalls hpower⟩
  · intro policy e he
    obtain ⟨hsound, hfalls⟩ := (Exploration.yields_falls policy).decode he
    exact hsound.neverRises hpower hfalls

/-- The powers of one quarter that are reached after one and after two quarters of a training; other powers
are left out. -/
def quarterPowers (x p : Float) : Float :=
  if x = 0.25 then if p < 0.5 then 0.7071067811865476 else 0.5 else 1.0

theorem monotone_quarterPowers : MonotonePowers quarterPowers where
  grow x p q hx _ _ _ := by
    have hne : x ≠ 0.25 := by
      rintro rfl
      exact absurd hx (by decide)
    simp only [quarterPowers, if_neg hne]
    exact (by decide : 1.0 ≤ 1.0)
  shrink x p q _ _ _ h _ := by
    unfold quarterPowers
    split
    · by_cases hq : q < 0.5
      · rw [if_pos hq, if_pos (lt_of_le_of_lt h hq)]
        decide
      · rw [if_neg hq]
        split <;> decide
    · decide

/-- A way of exploring whose epsilon is quartered during the training of an agent. -/
def quartered : Value := .object [
  ("epsilon_spec", .list [.text "exponential", .number (.decimal 1.0), .number (.decimal 0.25)])]

theorem oneWay_of_decode_quartered :
    MonotonePowers quarterPowers ∧ ∃ e, (Exploration.reading .reject).decode .root quartered = .ok e ∧
      e.epsilon.valueIn (.withPower quarterPowers) 25 100 = 0.7071067811865476 ∧
      e.epsilon.valueIn (.withPower quarterPowers) 50 100 = 0.5 ∧
      e.epsilon.NeverRises (.withPower quarterPowers) := by
  have hpowers := monotone_quarterPowers
  obtain ⟨e, he, hquarter, hhalf⟩ : ∃ e, (Exploration.reading .reject).decode .root quartered = .ok e ∧
      e.epsilon.valueIn (.withPower quarterPowers) 25 100 = 0.7071067811865476 ∧
      e.epsilon.valueIn (.withPower quarterPowers) 50 100 = 0.5 :=
    ⟨_, rfl, by decide +kernel, by decide +kernel⟩
  exact ⟨hpowers, e, he, hquarter, hhalf, (oneWay_of_decode hpowers .root quartered).2 .reject e he⟩

end Schedule

end Regimen
