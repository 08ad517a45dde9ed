import Regimen.Proofs.Binary64

/-!
# Rounding

What the machine makes of a result that it cannot write. The results of its operations are rational numbers;
`rounded` takes such a number to the nearest point of a grid, whose width goes by the size of the number, and
`roundedValue` is what becomes of it, with a sign, where numbers that are too great become infinite.
**Rounding keeps the order** (`roundedValue_mono`).

The other half is that the machine does so. A number has a value (`value`), and comparison is the order of the
values (`le_iff_value`). A mantissa that is cut down keeps two bits of what is lost, which hold all that
rounding needs to know (`Holds`), and **the machine rounds the number that they hold**
(`value_roundWithAccuracy`).
-/

namespace Regimen.Binary64

open Float.Model Float.Model.UnpackedFloat

/-! ### Rounding to a grid -/

/-- The nearest integer, and of two that are equally near the even one. -/
def nearest (q : ℚ) : ℤ :=
  if Int.fract q < 1 / 2 ∨ Int.fract q = 1 / 2 ∧ Even ⌊q⌋ then ⌊q⌋ else ⌊q⌋ + 1

theorem nearest_bounds (q : ℚ) : ⌊q⌋ ≤ nearest q ∧ nearest q ≤ ⌊q⌋ + 1 := by
  unfold nearest
  split <;> omega

@[simp] theorem nearest_intCast (n : ℤ) : nearest n = n := by
  simp [nearest]

theorem le_nearest {n : ℤ} {q : ℚ} (h : n ≤ q) : n ≤ nearest q :=
  (Int.le_floor.mpr h).trans (nearest_bounds q).1

theorem nearest_mono : Monotone nearest := by
  intro q r hqr
  have hfloor : ⌊q⌋ ≤ ⌊r⌋ := Int.floor_mono hqr
  rcases hfloor.lt_or_eq with hlt | heq
  · calc nearest q ≤ ⌊q⌋ + 1 := (nearest_bounds q).2
      _ ≤ ⌊r⌋ := hlt
      _ ≤ nearest r := (nearest_bounds r).1
  · have hfract : Int.fract q ≤ Int.fract r := by
      unfold Int.fract
      rw [heq]
      exact sub_le_sub_right hqr _
    unfold nearest
    rw [heq]
    split
    · split <;> omega
    · rename_i hq
      rw [if_neg]
      rintro (hr | ⟨hr, heven⟩)
      · exact hq (.inl (hfract.trans_lt hr))
      · rcases hfract.lt_or_eq with hlt | hsame
        · exact hq (.inl (hlt.trans_eq hr))
        · exact hq (.inr ⟨hsame.trans hr, heven⟩)

theorem nearest_le {n : ℤ} {q : ℚ} (h : q ≤ n) : nearest q ≤ n :=
  (nearest_mono h).trans_eq (nearest_intCast n)

/-- The exponent of the grid that a number is rounded to. It leaves 53 bits of the number, but no grid is
finer than that of the least numbers. -/
def gridExponent (q : ℚ) : ℤ := max (Int.log 2 q - 52) (-1074)

/-- The point of its grid that is nearest to a number. -/
def rounded (q : ℚ) : ℚ := nearest (q / 2 ^ gridExponent q) * 2 ^ gridExponent q

theorem two_zpow_pos (e : ℤ) : (0 : ℚ) < 2 ^ e := zpow_pos (by norm_num) e

theorem two_zpow_add (e f : ℤ) : (2 : ℚ) ^ (e + f) = 2 ^ e * 2 ^ f := zpow_add₀ (by norm_num) e f

theorem two_zpow_le {e f : ℤ} (h : e ≤ f) : (2 : ℚ) ^ e ≤ 2 ^ f :=
  zpow_le_zpow_right₀ (by norm_num) h

@[simp] theorem rounded_zero : rounded 0 = 0 := by
  simp [rounded, nearest]

theorem rounded_nonneg {q : ℚ} (hq : 0 ≤ q) : 0 ≤ rounded q := by
  have hnearest : 0 ≤ nearest (q / 2 ^ gridExponent q) :=
    le_nearest (by exact_mod_cast div_nonneg hq (two_zpow_pos _).le)
  exact mul_nonneg (by exact_mod_cast hnearest) (two_zpow_pos _).le

/-- The nearest point of the grid has 53 bits, or it is the next power of two. -/
theorem nearest_grid_le {q : ℚ} : nearest (q / 2 ^ gridExponent q) ≤ 2 ^ 53 := by
  apply nearest_le
  rw [div_le_iff₀ (two_zpow_pos _)]
  calc q ≤ 2 ^ (Int.log 2 q + 1) := by
        exact_mod_cast (Int.lt_zpow_succ_log_self (b := 2) (by decide) q).le
    _ ≤ 2 ^ (53 + gridExponent q) := two_zpow_le (by unfold gridExponent; omega)
    _ = _ := by rw [two_zpow_add]; norm_num

/-- It has no fewer bits, unless it lies on the finest grid. -/
theorem le_nearest_grid {q : ℚ} (hq : 0 < q) (hgrid : -1074 < gridExponent q) :
    2 ^ 52 ≤ nearest (q / 2 ^ gridExponent q) := by
  have hlog : 52 + gridExponent q = Int.log 2 q := by
    unfold gridExponent at hgrid ⊢
    omega
  apply le_nearest
  rw [le_div_iff₀ (two_zpow_pos _)]
  calc _ = (2 : ℚ) ^ (52 + gridExponent q) := by rw [two_zpow_add]; norm_num
    _ = 2 ^ Int.log 2 q := by rw [hlog]
    _ ≤ q := by exact_mod_cast Int.zpow_log_le_self (b := 2) (by decide) hq

/-- Rounding keeps the order. On one grid that is since the nearest integers do, and numbers on different
grids are kept apart by a power of two. -/
theorem rounded_mono {q r : ℚ} (hq : 0 ≤ q) (hqr : q ≤ r) : rounded q ≤ rounded r := by
  rcases hq.eq_or_lt with rfl | hpos
  · rw [rounded_zero]
    exact rounded_nonneg hqr
  have hgrid : gridExponent q ≤ gridExponent r := by
    have hlog := Int.log_mono_right (b := 2) hpos hqr
    unfold gridExponent
    omega
  rcases hgrid.lt_or_eq with hlt | heq
  · have hfinest : -1074 ≤ gridExponent q := le_max_right _ _
    have hle : (nearest (q / 2 ^ gridExponent q) : ℚ) ≤ 2 ^ (53 : ℤ) := by
      exact_mod_cast nearest_grid_le
    have hge : (2 ^ (52 : ℤ) : ℚ) ≤ nearest (r / 2 ^ gridExponent r) := by
      exact_mod_cast le_nearest_grid (hpos.trans_le hqr) (by omega)
    calc rounded q ≤ 2 ^ (53 : ℤ) * 2 ^ gridExponent q :=
          mul_le_mul_of_nonneg_right hle (two_zpow_pos _).le
      _ = 2 ^ (53 + gridExponent q) := (two_zpow_add _ _).symm
      _ ≤ 2 ^ (52 + gridExponent r) := two_zpow_le (by omega)
      _ = 2 ^ (52 : ℤ) * 2 ^ gridExponent r := two_zpow_add _ _
      _ ≤ rounded r := mul_le_mul_of_nonneg_right hge (two_zpow_pos _).le
  · unfold rounded
    rw [heq]
    apply mul_le_mul_of_nonneg_right _ (two_zpow_pos _).le
    have hquotients : q / 2 ^ gridExponent r ≤ r / 2 ^ gridExponent r :=
      div_le_div_of_nonneg_right hqr (two_zpow_pos _).le
    exact_mod_cast nearest_mono hquotients

/-- Where the infinite numbers stand: at the least power of two that is too great for a finite one. -/
def limit : ℚ := 2 ^ (1024 : ℤ)

/-- What a number becomes when it is rounded. Both signs are treated alike, and what is too great
becomes infinite. -/
def roundedValue (q : ℚ) : ℚ := if 0 ≤ q then min (rounded q) limit else -min (rounded (-q)) limit

theorem limit_pos : 0 < limit := two_zpow_pos 1024

theorem roundedValue_nonneg {q : ℚ} (hq : 0 ≤ q) : 0 ≤ roundedValue q := by
  rw [roundedValue, if_pos hq]
  exact le_min (rounded_nonneg hq) limit_pos.le

theorem roundedValue_neg {q : ℚ} : roundedValue (-q) = -roundedValue q := by
  unfold roundedValue
  rcases lt_trichotomy q 0 with hq | rfl | hq
  · simp [hq.le, hq.not_ge]
  · simp [rounded_zero, limit_pos.le]
  · simp [hq.le, hq.not_ge]

theorem roundedValue_mono : Monotone roundedValue := by
  have hmono {q r : ℚ} (hq : 0 ≤ q) (hqr : q ≤ r) : roundedValue q ≤ roundedValue r := by
    rw [roundedValue, roundedValue, if_pos hq, if_pos (hq.trans hqr)]
    exact min_le_min_right _ (rounded_mono hq hqr)
  intro q r hqr
  rcases le_total 0 q with hq | hq
  · exact hmono hq hqr
  rcases le_total 0 r with hr | hr
  · have hnonneg := roundedValue_nonneg (neg_nonneg.mpr hq)
    rw [roundedValue_neg] at hnonneg
    exact (neg_nonneg.mp hnonneg).trans (roundedValue_nonneg hr)
  · have hneg := hmono (neg_nonneg.mpr hr) (neg_le_neg hqr)
    rw [roundedValue_neg, roundedValue_neg] at hneg
    exact neg_le_neg_iff.mp hneg

/-! ### The numbers that are written -/

/-- The factor that a sign stands for. -/
def factor : Sign → ℚ
  | .positive => 1
  | .negative => -1

/-- The number that is written. An undefined number is none, and its value says nothing. -/
def value : UnpackedFloat → ℚ
  | .infinity s => factor s * limit
  | .zero _ | .notANumber => 0
  | .finite s m e _ => factor s * (m * 2 ^ e)

/-- Numbers with greater exponents are greater, whatever their mantissas, since those are full. -/
theorem magnitude_lt {m m' : ℕ} {e e' : ℤ} (h : Canonical m e) (h' : Canonical m' e')
    (hlt : e < e' ∨ e = e' ∧ m < m') : (m * 2 ^ e : ℚ) < m' * 2 ^ e' := by
  rcases hlt with hlt | ⟨rfl, hlt⟩
  · have hfull : (2 ^ 52 : ℚ) ≤ m' := by
      have hle := h.le
      exact_mod_cast h'.full.resolve_right (by omega)
    have hbits : (m : ℚ) < 2 ^ 53 := by exact_mod_cast h.lt
    calc (m * 2 ^ e : ℚ) < 2 ^ 53 * 2 ^ e := mul_lt_mul_of_pos_right hbits (two_zpow_pos e)
      _ = 2 ^ (53 + e) := (two_zpow_add 53 e).symm
      _ ≤ 2 ^ (52 + e') := two_zpow_le (by omega)
      _ = 2 ^ 52 * 2 ^ e' := two_zpow_add 52 e'
      _ ≤ m' * 2 ^ e' := mul_le_mul_of_nonneg_right hfull (two_zpow_pos e').le
  · exact mul_lt_mul_of_pos_right (by exact_mod_cast hlt) (two_zpow_pos e)

theorem magnitude_pos {m : ℕ} (e : ℤ) (hm : 0 < m) : (0 : ℚ) < m * 2 ^ e :=
  mul_pos (by exact_mod_cast hm) (two_zpow_pos e)

theorem limit_eq : limit = (2 ^ 52 : ℕ) * 2 ^ (972 : ℤ) := by
  have hfull : ((2 ^ 52 : ℕ) : ℚ) = 2 ^ (52 : ℤ) := by norm_num
  rw [hfull]
  exact two_zpow_add 52 972

/-- Finite numbers lie below the infinite ones, just if their exponents are not too great. -/
theorem magnitude_lt_limit {m : ℕ} {e : ℤ} (h : Canonical m e) (he : e ≤ 971) :
    (m * 2 ^ e : ℚ) < limit := by
  rw [limit_eq]
  exact magnitude_lt h ⟨by norm_num, by norm_num, .inl (le_refl _)⟩ (.inl (by omega))

theorem limit_le_magnitude {m : ℕ} {e : ℤ} (h : Canonical m e) (he : 971 < e) : limit ≤ m * 2 ^ e := by
  have hfull : ((2 ^ 52 : ℕ) : ℚ) ≤ m := by exact_mod_cast h.full.resolve_right (by omega)
  rw [limit_eq]
  exact mul_le_mul hfull (two_zpow_le (by omega)) (two_zpow_pos _).le (Nat.cast_nonneg m)

theorem value_lt_of_rank_lt {x y : Float} (h : rank (parts x) < rank (parts y)) :
    value (parts x) < value (parts y) := by
  have hlimit := limit_pos
  rcases hx : parts x with ⟨_ | _⟩ | _ | s | ⟨_ | _, m, e, hm⟩ <;>
    rcases hy : parts y with ⟨_ | _⟩ | _ | s' | ⟨_ | _, m', e', hm'⟩ <;>
    rw [hx, hy] at h <;> simp only [rank, Prod.Lex.toLex_lt_toLex, value, factor] at h ⊢ <;>
    try first | omega | linarith
  case infinity.negative.finite.negative =>
    linarith [magnitude_lt_limit (canonical_of_parts hy).1 (canonical_of_parts hy).2]
  case finite.positive.infinity.positive =>
    linarith [magnitude_lt_limit (canonical_of_parts hx).1 (canonical_of_parts hx).2]
  case finite.negative.finite.negative =>
    linarith [magnitude_lt (canonical_of_parts hy).1 (canonical_of_parts hx).1 (by omega)]
  case finite.positive.finite.positive =>
    linarith [magnitude_lt (canonical_of_parts hx).1 (canonical_of_parts hy).1 (by omega)]
  all_goals first
    | linarith [magnitude_pos e hm]
    | linarith [magnitude_pos e' hm']
    | linarith [magnitude_pos e hm, magnitude_pos e' hm']

theorem value_eq_of_rank_eq {x y : UnpackedFloat} (h : rank x = rank y) : value x = value y := by
  rcases x with ⟨_ | _⟩ | _ | s | ⟨_ | _, m, e, hm⟩ <;>
    rcases y with ⟨_ | _⟩ | _ | s' | ⟨_ | _, m', e', hm'⟩ <;>
    simp_all [rank, value, factor]

theorem rank_lt_iff_value_lt {x y : Float} :
    rank (parts x) < rank (parts y) ↔ value (parts x) < value (parts y) := by
  constructor
  · exact value_lt_of_rank_lt
  · intro h
    rcases lt_trichotomy (rank (parts x)) (rank (parts y)) with hlt | heq | hgt
    · exact hlt
    · exact absurd (value_eq_of_rank_eq heq) h.ne
    · exact absurd (value_lt_of_rank_lt hgt) h.asymm

/-- **Comparison is the order of the values.** -/
theorem lt_iff_value {x y : Float} :
    x < y ↔ ¬x.isNaN ∧ ¬y.isNaN ∧ value (parts x) < value (parts y) := by
  rw [lt_iff, rank_lt_iff_value_lt]

theorem le_iff_value {x y : Float} :
    x ≤ y ↔ ¬x.isNaN ∧ ¬y.isNaN ∧ value (parts x) ≤ value (parts y) := by
  rw [le_iff, ← not_lt, ← not_lt, rank_lt_iff_value_lt]

theorem le_of_value {x y : Float} (hx : ¬x.isNaN) (hy : ¬y.isNaN) (h : value (parts x) ≤ value (parts y)) :
    x ≤ y := le_iff_value.mpr ⟨hx, hy, h⟩

theorem value_lt {x y : Float} (h : x < y) : value (parts x) < value (parts y) := (lt_iff_value.mp h).2.2

theorem value_le {x y : Float} (h : x ≤ y) : value (parts x) ≤ value (parts y) := (le_iff_value.mp h).2.2

/-! ### What is kept of a number -/

/-- **What is kept of a number** that begins with a mantissa: whether it is the mantissa itself, and on which
side it lies of the middle between the mantissa and the next one. -/
def Holds (m : ExtendedMantissa) (q : ℚ) : Prop :=
  match m.roundBit, m.stickyBit with
  | false, false => q = m.mantissa
  | false, true => m.mantissa < q ∧ q < m.mantissa + 1 / 2
  | true, false => q = m.mantissa + 1 / 2
  | true, true => m.mantissa + 1 / 2 < q ∧ q < m.mantissa + 1

namespace Holds

variable {m : ExtendedMantissa} {q : ℚ}

theorem bounds (h : Holds m q) : m.mantissa ≤ q ∧ q < m.mantissa + 1 := by
  obtain ⟨n, _ | _, _ | _⟩ := m <;> simp only [Holds] at h ⊢ <;> constructor <;> linarith

theorem exact (n : ℕ) : Holds (.ofMantissaAndAccuracy n .exact) n := rfl

theorem shiftRightOne (h : Holds m q) : Holds m.shiftRightOne (q / 2) := by
  obtain ⟨n, round, sticky⟩ := m
  have hdiv : (n : ℚ) = 2 * (n / 2 : ℕ) + (n % 2 : ℕ) := by exact_mod_cast (Nat.div_add_mod n 2).symm
  have hbit : (n % 2 != 0) = decide (n % 2 = 1) := by
    rcases Nat.mod_two_eq_zero_or_one n with hmod | hmod <;> simp [hmod]
  unfold ExtendedMantissa.shiftRightOne
  rcases Nat.mod_two_eq_zero_or_one n with hmod | hmod <;> rw [hmod] at hdiv <;> push_cast at hdiv <;>
    cases round <;> cases sticky <;> simp only [Holds, hmod] at h ⊢ <;>
    simp <;> first | linarith | constructor <;> linarith

theorem shiftRight (h : Holds m q) (k : ℕ) : Holds (m >>> k) (q / 2 ^ k) := by
  induction k with
  | zero =>
    rw [pow_zero, div_one]
    exact h
  | succ k ih =>
    rw [pow_succ, ← div_div]
    exact ih.shiftRightOne

/-- The residual bits are all that rounding needs to know. -/
theorem roundedMantissa (h : Holds m q) : nearest q = m.roundedMantissa := by
  have hfloor : ⌊q⌋ = m.mantissa := Int.floor_eq_iff.mpr (by exact_mod_cast h.bounds)
  have hfract : Int.fract q = q - m.mantissa := by rw [Int.fract, hfloor]; norm_cast
  unfold nearest
  rw [hfract, hfloor]
  obtain ⟨n, _ | _, _ | _⟩ := m <;> simp only [Holds] at h hfract ⊢
  · rw [if_pos (.inl (by linarith))]
    rfl
  · rw [if_pos (.inl (by linarith))]
    rfl
  · -- In the middle, the even mantissa is chosen.
    have hhalf : q - n = 1 / 2 := by linarith
    show _ = ((n + n % 2 : ℕ) : ℤ)
    rw [hhalf]
    rcases Nat.mod_two_eq_zero_or_one n with hmod | hmod
    · rw [if_pos (.inr ⟨rfl, by exact_mod_cast Nat.even_iff.mpr hmod⟩), hmod]
      rfl
    · rw [if_neg, hmod]
      · rfl
      · rintro (hlt | ⟨-, heven⟩)
        · exact lt_irrefl _ hlt
        · rw [Int.even_coe_nat, Nat.even_iff] at heven
          omega
  · rw [if_neg]
    · rfl
    · rintro (hlt | ⟨heq, -⟩) <;> linarith

end Holds

theorem Holds.ofFraction (a : ℕ) {b : ℕ} (hb : 0 < b) :
    Holds (.ofMantissaAndAccuracy (a / b) (accuracyOfFraction (a % b) b)) (a / b) := by
  have hb' : (0 : ℚ) < b := by exact_mod_cast hb
  have hdiv : (a / b : ℚ) = (a / b : ℕ) + (a % b : ℕ) / b := by
    rw [eq_comm, ← mul_left_inj' hb'.ne', add_mul, div_mul_cancel₀ _ hb'.ne', div_mul_cancel₀ _ hb'.ne']
    exact_mod_cast Nat.div_add_mod' a b
  have hlt : ((a % b : ℕ) : ℚ) < b := by exact_mod_cast Nat.mod_lt a hb
  rw [hdiv]
  unfold accuracyOfFraction
  generalize a % b = r at hlt ⊢
  generalize a / b = n
  split
  · rename_i hr
    simp [hr, Holds, ExtendedMantissa.ofMantissaAndAccuracy]
  · rename_i hr
    have hpos : (0 : ℚ) < r := by exact_mod_cast Nat.pos_of_ne_zero hr
    have hpart : (0 : ℚ) < r / b ∧ (r / b : ℚ) < 1 := ⟨div_pos hpos hb', (div_lt_one hb').mpr hlt⟩
    rcases lt_trichotomy (2 * r) b with hc | hc | hc
    · have hhalf : (r / b : ℚ) < 1 / 2 := by
        rw [div_lt_iff₀ hb']
        have : (2 * r : ℚ) < b := by exact_mod_cast hc
        linarith
      rw [compare_lt_iff_lt.mpr hc]
      constructor <;> simp only [ExtendedMantissa.ofMantissaAndAccuracy] <;> linarith
    · have hhalf : (r / b : ℚ) = 1 / 2 := by
        rw [div_eq_iff hb'.ne']
        have : (2 * r : ℚ) = b := by exact_mod_cast hc
        linarith
      rw [compare_eq_iff_eq.mpr hc, hhalf]
      rfl
    · have hhalf : 1 / 2 < (r / b : ℚ) := by
        rw [lt_div_iff₀ hb']
        have : (b : ℚ) < 2 * r := by exact_mod_cast hc
        linarith
      rw [compare_gt_iff_gt.mpr hc]
      constructor <;> simp only [ExtendedMantissa.ofMantissaAndAccuracy] <;> linarith

/-! ### Rounding by the machine -/

section Log

variable {m : ℕ} {q : ℚ}

theorem log_eq_iff (hq : 0 < q) {n : ℤ} : Int.log 2 q = n ↔ 2 ^ n ≤ q ∧ q < 2 ^ (n + 1) := by
  have hle := Int.zpow_le_iff_le_log (b := 2) (by decide) (x := n) hq
  have hlt := Int.lt_zpow_iff_log_lt (b := 2) (by decide) (x := n + 1) hq
  push_cast at hle hlt
  rw [hle, hlt]
  omega

theorem log_mul_two_zpow (hq : 0 < q) (e : ℤ) : Int.log 2 (q * 2 ^ e) = Int.log 2 q + e := by
  obtain ⟨hle, hlt⟩ := (log_eq_iff hq).mp rfl
  rw [log_eq_iff (mul_pos hq (two_zpow_pos e)), add_right_comm, two_zpow_add, two_zpow_add]
  exact ⟨mul_le_mul_of_nonneg_right hle (two_zpow_pos e).le, mul_lt_mul_of_pos_right hlt (two_zpow_pos e)⟩

/-- A quotient has as many bits as are the difference, or one less. -/
theorem log_sub_log_le (hq : 0 < q) {r : ℚ} (hr : 0 < r) :
    Int.log 2 q - Int.log 2 r - 1 ≤ Int.log 2 (q / r) := by
  have hle : (2 : ℚ) ^ Int.log 2 q ≤ q := ((log_eq_iff hq).mp rfl).1
  have hlt : r < 2 ^ (Int.log 2 r + 1) := ((log_eq_iff hr).mp rfl).2
  rw [← Int.zpow_le_iff_le_log (by decide) (div_pos hq hr), Nat.cast_two, le_div_iff₀ hr]
  calc (2 : ℚ) ^ (Int.log 2 q - Int.log 2 r - 1) * r
      ≤ 2 ^ (Int.log 2 q - Int.log 2 r - 1) * 2 ^ (Int.log 2 r + 1) :=
        mul_le_mul_of_nonneg_left hlt.le (two_zpow_pos _).le
    _ = 2 ^ Int.log 2 q := by rw [← two_zpow_add]; congr 1; omega
    _ ≤ q := hle

/-- A number has as many bits before the point as the mantissa that it begins with. -/
theorem log_eq_log2 (hm : 0 < m) (hle : m ≤ q) (hlt : q < m + 1) : Int.log 2 q = m.log2 := by
  have hfloor : ⌊q⌋₊ = m := (Nat.floor_eq_iff (m.cast_nonneg.trans hle)).mpr ⟨hle, hlt⟩
  have hone : (1 : ℚ) ≤ m := by exact_mod_cast hm
  rw [Int.log_of_one_le_right 2 (hone.trans hle), hfloor, Nat.log2_eq_log_two]

end Log

/-- The machine cuts a mantissa down to the grid of the number that begins with it. -/
theorem targetExponent_of_pos {m : ℕ} {q : ℚ} (hm : 0 < m) (hle : m ≤ q) (hlt : q < m + 1) (e : ℤ) :
    Format.binary64.targetExponent (totalExponent m e) = gridExponent (q * 2 ^ e) := by
  have hq : 0 < q := (Nat.cast_pos.mpr hm).trans_le hle
  show max ((m.log2 : ℤ) + 1 + e - 53) (-1074) = _
  rw [gridExponent, log_mul_two_zpow hq, log_eq_log2 hm hle hlt]
  omega

/-- So it does where the number begins with nothing, since it lies below the finest grid then. -/
theorem targetExponent_eq {m : ℕ} {e : ℤ} {q : ℚ} (hq : 0 < q) (hle : m ≤ q) (hlt : q < m + 1)
    (he : e ≤ gridExponent (q * 2 ^ e)) :
    Format.binary64.targetExponent (totalExponent m e) = gridExponent (q * 2 ^ e) := by
  rcases Nat.eq_zero_or_pos m with rfl | hm
  · have hlog : Int.log 2 q < 0 := by
      rw [← Int.lt_zpow_iff_log_lt (by decide) hq, zpow_zero]
      simpa using hlt
    have hzero : Nat.log2 0 = 0 := by decide
    show max ((Nat.log2 0 : ℤ) + 1 + e - 53) (-1074) = _
    rw [gridExponent, log_mul_two_zpow hq] at he ⊢
    omega
  · exact targetExponent_of_pos hm hle hlt e

/-- After the shift, the mantissa and its residual bits hold the number in units of its grid. -/
theorem shiftToTargetExponent_holds {m : ℕ} {e : ℤ} {a : Accuracy} {q : ℚ} (hq : 0 < q)
    (h : Holds (.ofMantissaAndAccuracy m a) q) (he : e ≤ gridExponent (q * 2 ^ e)) :
    (shiftToTargetExponent Format.binary64 m e a).2 = gridExponent (q * 2 ^ e) ∧
      Holds (shiftToTargetExponent Format.binary64 m e a).1
        (q * 2 ^ e / 2 ^ gridExponent (q * 2 ^ e)) := by
  have hmantissa : (ExtendedMantissa.ofMantissaAndAccuracy m a).mantissa = m := by
    obtain _ | _ | _ | _ := a <;> rfl
  have hbounds := h.bounds
  rw [hmantissa] at hbounds
  have htarget := targetExponent_eq hq hbounds.1 hbounds.2 he
  obtain ⟨k, hk⟩ := Int.eq_ofNat_of_zero_le (sub_nonneg.mpr he)
  unfold shiftToTargetExponent shiftToExponent
  simp only [htarget, hk, Int.toNat_natCast]
  refine ⟨by omega, ?_⟩
  have hunits : q * 2 ^ e / 2 ^ gridExponent (q * 2 ^ e) = q / 2 ^ k := by
    rw [show gridExponent (q * 2 ^ e) = k + e by omega, two_zpow_add, zpow_natCast,
      mul_div_mul_right _ _ (two_zpow_pos e).ne']
  rw [hunits]
  exact h.shiftRight k

/-- A rounded mantissa is canonical, or it is a power of two with one bit too many, and loses nothing when
it is cut down once more. -/
theorem shiftToTargetExponent_exact {m : ℕ} {e : ℤ} (hm : 0 < m) (hle : m ≤ 2 ^ 53) (he : -1074 ≤ e)
    (hfull : 2 ^ 52 ≤ m ∨ e = -1074) :
    ∃ m' e', (shiftToTargetExponent Format.binary64 m e .exact).1.mantissa = m' ∧
      (shiftToTargetExponent Format.binary64 m e .exact).2 = e' ∧ 0 < m' ∧
      Canonical m' e' ∧ (m' * 2 ^ e' : ℚ) = m * 2 ^ e := by
  have hm0 : m ≠ 0 := hm.ne'
  rcases hle.lt_or_eq with hlt | rfl
  · have htarget : Format.binary64.targetExponent (totalExponent m e) ≤ e := by
      have hlog : m.log2 < 53 := (Nat.log2_lt hm0).mpr hlt
      show max ((m.log2 : ℤ) + 1 + e - 53) (-1074) ≤ e
      omega
    refine ⟨m, e, ?_, ?_, hm, ⟨hlt, he, hfull⟩, rfl⟩
    · unfold shiftToTargetExponent shiftToExponent
      rw [mantissa_shiftRight, Int.toNat_of_nonpos (by omega), pow_zero, Nat.div_one]
      rfl
    · unfold shiftToTargetExponent shiftToExponent
      simp only [Int.toNat_of_nonpos (by omega : Format.binary64.targetExponent (totalExponent m e) - e ≤ 0)]
      omega
  · obtain ⟨hmantissa, hexponent⟩ := shiftToTargetExponent_of_log2 (m := 2 ^ 53) (k := 1) (e := e) .exact
      Nat.log2_two_pow (by omega)
    refine ⟨2 ^ 52, e + 1, hmantissa, hexponent, by decide, ⟨by decide, by omega, .inl (le_refl _)⟩, ?_⟩
    push_cast
    rw [two_zpow_add]
    ring

theorem roundedValue_factor_mul (s : Sign) {q : ℚ} (hq : 0 ≤ q) :
    roundedValue (factor s * q) = factor s * min (rounded q) limit := by
  cases s with
  | positive => rw [factor, one_mul, one_mul, roundedValue, if_pos hq]
  | negative => rw [factor, neg_one_mul, neg_one_mul, roundedValue_neg, roundedValue, if_pos hq]

theorem value_pack (s : Sign) {m : ℕ} {e : ℤ} (hm : 0 < m) (h : Canonical m e) :
    value (Float.Model.pack (.finite s m e hm)).unpack = factor s * min (m * 2 ^ e : ℚ) limit := by
  rcases le_or_gt e 971 with he | he
  · rw [unpack_pack_of_canonical h he, min_eq_left (magnitude_lt_limit h he).le]
    rfl
  · rw [unpack_pack_of_great he, min_eq_right (limit_le_magnitude h he)]
    rfl

/-- **The machine rounds to the nearest number.** -/
theorem value_roundWithAccuracy (s : Sign) {m : ℕ} {e : ℤ} {a : Accuracy} {q : ℚ} (hq : 0 < q)
    (h : Holds (.ofMantissaAndAccuracy m a) q) (he : e ≤ gridExponent (q * 2 ^ e)) :
    value (Float.Model.pack (roundWithAccuracy Format.binary64 s m e a)).unpack =
      roundedValue (factor s * (q * 2 ^ e)) := by
  have hpos : 0 < q * 2 ^ e := mul_pos hq (two_zpow_pos e)
  have hgrid : -1074 ≤ gridExponent (q * 2 ^ e) := le_max_right _ _
  obtain ⟨hexponent, hholds⟩ := shiftToTargetExponent_holds hq h he
  have hnearest := hholds.roundedMantissa
  have hle : nearest _ ≤ _ := nearest_grid_le (q := q * 2 ^ e)
  have hge : _ → _ ≤ nearest _ := le_nearest_grid hpos
  rw [roundedValue_factor_mul s hpos.le, rounded]
  unfold roundWithAccuracy
  dsimp only
  rw [hexponent]
  rw [hnearest] at hle hge ⊢
  generalize (shiftToTargetExponent Format.binary64 m e a).1.roundedMantissa = r at hle hge ⊢
  generalize gridExponent (q * 2 ^ e) = g at hgrid hge ⊢
  rcases Nat.eq_zero_or_pos r with rfl | hr
  · have hzero : (shiftToTargetExponent Format.binary64 0 g .exact).1.mantissa = 0 := by
      unfold shiftToTargetExponent shiftToExponent
      rw [mantissa_shiftRight]
      exact Nat.zero_div _
    rw [dif_pos hzero, Nat.cast_zero, Int.cast_zero, zero_mul, min_eq_left limit_pos.le, mul_zero]
    cases s <;> rfl
  · obtain ⟨m', e', hm', he', hpos', hcanonical, hvalue⟩ :=
      shiftToTargetExponent_exact (e := g) hr (by exact_mod_cast hle) hgrid (by
        rcases hgrid.lt_or_eq with hlt | heq
        · exact .inl (by exact_mod_cast hge hlt)
        · exact .inr heq.symm)
    simp only [hm', he', dif_neg hpos'.ne']
    rw [value_pack s hpos' hcanonical, hvalue, Int.cast_natCast]

end Regimen.Binary64
