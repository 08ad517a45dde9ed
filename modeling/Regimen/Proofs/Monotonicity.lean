import Regimen.Proofs.Rounding

/-!
# Operations that keep the order

The results of the operations of the processor are the exact ones, rounded (`value_add`, `value_sub`,
`value_mul`, `value_div`), and so are counts (`value_ofNat`). Since rounding keeps the order, **the
operations are monotone wherever the exact ones are**, in either direction. Differences may overflow and
powers may be infinite, so that sums and products are also compared where an operand is infinite.
-/

namespace Regimen.Binary64

open Float.Model Float.Model.UnpackedFloat

/-! ### Results -/

/-- The number is one that the machine has. -/
def Representable : UnpackedFloat → Prop
  | .finite _ m e _ => Canonical m e ∧ e ≤ 971
  | _ => True

theorem representable_parts (x : Float) : Representable (parts x) := by
  cases h : parts x with
  | finite s m e hm => exact canonical_of_parts h
  | _ => trivial

@[simp] theorem roundedValue_zero : roundedValue 0 = 0 := by
  rw [roundedValue, if_pos (le_refl _), rounded_zero, min_eq_left limit_pos.le]

/-- The grid of a canonical mantissa is its own. -/
theorem Canonical.gridExponent_eq {m : ℕ} {e : ℤ} (hm : 0 < m) (h : Canonical m e) :
    gridExponent (m * 2 ^ e) = e := by
  have hlog : m.log2 < 53 := (Nat.log2_lt hm.ne').mpr h.lt
  have hle := h.le
  rw [← targetExponent_of_pos hm (le_refl _) (by linarith) e]
  show max ((m.log2 : ℤ) + 1 + e - 53) (-1074) = e
  rcases h.full with hfull | rfl
  · rw [h.log2_of_full hfull]
    omega
  · omega

/-- What can be written without rounding is not rounded. -/
theorem roundedValue_value {x : UnpackedFloat} (hx : Representable x) (hfinite : x.isFinite) :
    roundedValue (value x) = value x := by
  cases x with
  | notANumber => cases hfinite
  | infinity s => cases hfinite
  | zero s => exact roundedValue_zero
  | finite s m e hm =>
    have hrounded : rounded (m * 2 ^ e) = m * 2 ^ e := by
      rw [rounded, hx.1.gridExponent_eq hm, mul_div_cancel_right₀ _ (two_zpow_pos e).ne']
      exact_mod_cast congrArg (fun n : ℤ => n * (2 : ℚ) ^ e) (nearest_intCast m)
    rw [value, roundedValue_factor_mul s (magnitude_pos e hm).le, hrounded,
      min_eq_left (magnitude_lt_limit hx.1 hx.2).le]

/-- Numbers that the machine has are put together without loss. -/
theorem unpack_pack_of_representable {x : UnpackedFloat} (hx : Representable x) :
    (Float.Model.pack x).unpack = x := by
  cases x with
  | notANumber => rfl
  | infinity s => cases s <;> rfl
  | zero s => cases s <;> rfl
  | finite s m e hm => exact unpack_pack_of_canonical hx.1 hx.2

theorem value_pack_of_representable {x : UnpackedFloat} (hx : Representable x) :
    value (Float.Model.pack x).unpack = value x :=
  congrArg value (unpack_pack_of_representable hx)

theorem representable_neg {x : UnpackedFloat} (hx : Representable x) : Representable x.neg := by
  cases x <;> exact hx

theorem representable_abs {x : UnpackedFloat} (hx : Representable x) : Representable x.abs := by
  cases x <;> exact hx

theorem isFinite_unpacked_neg {x : UnpackedFloat} : x.neg.isFinite = x.isFinite := by
  cases x <;> rfl

theorem value_round (s : Sign) {m : ℕ} (hm : 0 < m) (e : ℤ) :
    value (Float.Model.pack (round Format.binary64 s m e)).unpack =
      roundedValue (factor s * (m * 2 ^ e)) := by
  have htarget := targetExponent_of_pos (q := m) hm (le_refl _) (by linarith) e
  unfold UnpackedFloat.round decreaseExponent
  simp only [htarget]
  generalize hk : (e - gridExponent (m * 2 ^ e)).toNat = k
  have hsame : ((m <<< k : ℕ) * 2 ^ (e - k) : ℚ) = m * 2 ^ e := by
    rw [Nat.shiftLeft_eq, sub_eq_neg_add, two_zpow_add, zpow_neg, zpow_natCast]
    push_cast
    field_simp
  have hpos : (0 : ℚ) < (m <<< k : ℕ) := by
    rw [Nat.shiftLeft_eq]
    exact_mod_cast Nat.mul_pos hm (Nat.two_pow_pos k)
  rw [← hsame]
  exact value_roundWithAccuracy s hpos (.exact _) (by rw [hsame]; omega)

theorem value_normalize (m e : ℤ) (s : Sign) :
    value (Float.Model.pack (normalize Format.binary64 m e s)).unpack = roundedValue (m * 2 ^ e) := by
  unfold UnpackedFloat.normalize
  rcases lt_trichotomy m 0 with hm | rfl | hm
  · obtain ⟨n, rfl⟩ : ∃ n : ℕ, m = -n := ⟨m.natAbs, by omega⟩
    rw [compare_lt_iff_lt.mpr hm, neg_neg, Int.toNat_natCast, value_round .negative (by omega)]
    simp [factor]
  · rw [compare_eq_iff_eq.mpr rfl, Int.cast_zero, zero_mul, roundedValue_zero]
    exact value_pack_of_representable (x := .zero s) trivial
  · obtain ⟨n, rfl⟩ : ∃ n : ℕ, m = n := ⟨m.natAbs, by omega⟩
    rw [compare_gt_iff_gt.mpr hm, Int.toNat_natCast, value_round .positive (by omega)]
    simp [factor]

theorem apply_eq (s : Sign) (n : ℤ) : ((s.apply n : ℤ) : ℚ) = factor s * n := by
  cases s <;> simp [Sign.apply, factor]

/-- Two numbers are brought to one exponent before they are added. -/
theorem decreaseExponent_value (m : ℕ) {e f : ℤ} (h : f ≤ e) :
    ((decreaseExponent m e f).1 * 2 ^ f : ℚ) = m * 2 ^ e := by
  obtain ⟨k, hk⟩ := Int.eq_ofNat_of_zero_le (sub_nonneg.mpr h)
  have he : e = k + f := by omega
  simp only [decreaseExponent, hk, Int.toNat_natCast, Nat.shiftLeft_eq]
  rw [he, two_zpow_add, zpow_natCast]
  push_cast
  ring

section Sum

variable {x y : UnpackedFloat}

theorem value_unpacked_add (hx : Representable x) (hy : Representable y) (hx' : x.isFinite)
    (hy' : y.isFinite) : value (Float.Model.pack (UnpackedFloat.add Format.binary64 x y)).unpack =
      roundedValue (value x + value y) := by
  rcases x with s | _ | s | ⟨s, m, e, hm⟩ <;> rcases y with s' | _ | s' | ⟨s', m', e', hm'⟩ <;>
    first
    | contradiction
    | skip
  case zero.zero =>
    rw [value, value, add_zero, roundedValue_zero]
    unfold UnpackedFloat.add
    dsimp only
    split <;> exact value_pack_of_representable trivial
  case zero.finite =>
    rw [value, zero_add, roundedValue_value hy hy']
    exact value_pack_of_representable hy
  case finite.zero =>
    rw [value, value, add_zero]
    exact (value_pack_of_representable hx).trans (roundedValue_value hx hx').symm
  case finite.finite =>
    unfold UnpackedFloat.add
    dsimp only
    rw [value_normalize]
    push_cast
    rw [apply_eq, apply_eq, add_mul, Int.cast_natCast, Int.cast_natCast, mul_assoc, mul_assoc,
      decreaseExponent_value m (min_le_left e e'), decreaseExponent_value m' (min_le_right e e')]
    rfl

theorem apply_neg (s : Sign) (n : ℤ) : (-s).apply n = -s.apply n := by
  cases s
  · exact (Int.neg_neg n).symm
  · rfl

theorem unpacked_sub :
    UnpackedFloat.sub Format.binary64 x y = UnpackedFloat.add Format.binary64 x y.neg := by
  rcases x with s | _ | s | ⟨s, m, e, hm⟩ <;> rcases y with s' | _ | s' | ⟨s', m', e', hm'⟩ <;>
    first
    | rfl
    | skip
  case finite.finite =>
    unfold UnpackedFloat.sub UnpackedFloat.add UnpackedFloat.neg
    dsimp only
    rw [apply_neg, Int.sub_eq_add_neg]

theorem factor_neg (s : Sign) : factor (-s) = -factor s := by
  cases s
  · exact (neg_neg 1).symm
  · rfl

theorem value_neg : value x.neg = -value x := by
  rcases x with s | _ | s | ⟨s, m, e, hm⟩
  · rw [UnpackedFloat.neg, value, factor_neg, neg_mul]
    rfl
  · exact neg_zero.symm
  · exact neg_zero.symm
  · rw [UnpackedFloat.neg, value, factor_neg, neg_mul]
    rfl

end Sum

section Product

theorem factor_mul (s s' : Sign) : factor (s * s') = factor s * factor s' := by
  cases s <;> cases s'
  · exact (by norm_num : (1 : ℚ) = -1 * -1)
  · exact (mul_one _).symm
  · exact (one_mul _).symm
  · exact (mul_one _).symm

theorem factor_div (s s' : Sign) : factor (s / s') = factor s / factor s' := by
  cases s <;> cases s'
  · exact (by norm_num : (1 : ℚ) = -1 / -1)
  · exact (div_one _).symm
  · exact (by norm_num : (-1 : ℚ) = 1 / -1)
  · exact (div_one _).symm

variable {m m' : ℕ} {e e' : ℤ}

theorem Canonical.add_le_gridExponent (h : Canonical m e) (h' : Canonical m' e') (hm : 0 < m)
    (hm' : 0 < m') : e + e' ≤ gridExponent ((m * m' : ℕ) * 2 ^ (e + e')) := by
  have hpos : 0 < m * m' := Nat.mul_pos hm hm'
  rw [← targetExponent_of_pos hpos (le_refl _) (by linarith)]
  show e + e' ≤ max (((m * m').log2 : ℤ) + 1 + (e + e') - 53) (-1074)
  have hfull (hge : 2 ^ 52 ≤ m * m') : 52 ≤ (m * m').log2 := (Nat.le_log2 hpos.ne').mpr hge
  rcases h.full with hfm | he
  · have := hfull (hfm.trans (Nat.le_mul_of_pos_right m hm'))
    omega
  rcases h'.full with hfm' | he'
  · have := hfull (hfm'.trans (Nat.le_mul_of_pos_left m' hm))
    omega
  · omega

theorem value_unpacked_mul {x y : UnpackedFloat} (hx : Representable x) (hy : Representable y)
    (hx' : x.isFinite) (hy' : y.isFinite) :
    value (Float.Model.pack (UnpackedFloat.mul Format.binary64 x y)).unpack =
      roundedValue (value x * value y) := by
  rcases x with s | _ | s | ⟨s, m, e, hm⟩ <;> rcases y with s' | _ | s' | ⟨s', m', e', hm'⟩ <;>
    first
    | contradiction
    | skip
  case finite.finite =>
    have hproduct : value (.finite s m e hm) * value (.finite s' m' e' hm') =
        factor (s * s') * ((m * m' : ℕ) * 2 ^ (e + e')) := by
      rw [value, value, factor_mul, two_zpow_add, Nat.cast_mul]
      ring
    rw [hproduct]
    exact value_roundWithAccuracy (s * s') (by exact_mod_cast Nat.mul_pos hm hm') (.exact _)
      (hx.1.add_le_gridExponent hy.1 hm hm')
  all_goals
    simp only [value, zero_mul, mul_zero, roundedValue_zero]
    exact value_pack_of_representable trivial

/-- The exponent of a quotient is decreased until its mantissa is long enough. -/
theorem value_divCore (s : Sign) (hm : 0 < m) (hm' : 0 < m') :
    let core := divCore Format.binary64 m e m' e'
    value (Float.Model.pack (roundWithAccuracy Format.binary64 s core.1 core.2.1 core.2.2)).unpack =
      roundedValue (factor s * (m * 2 ^ e / (m' * 2 ^ e'))) := by
  have hlog {n : ℕ} (hn : 0 < n) (f : ℤ) : Int.log 2 (n * 2 ^ f : ℚ) = totalExponent n f - 1 := by
    rw [log_mul_two_zpow (by exact_mod_cast hn), log_eq_log2 hn (le_refl _) (by linarith), totalExponent]
    omega
  have hbits := log_sub_log_le (magnitude_pos e hm) (magnitude_pos e' hm')
  rw [hlog hm, hlog hm'] at hbits
  unfold divCore
  dsimp only
  have htarget : Format.binary64.targetExponent (totalExponent m e - totalExponent m' e') ≤
      gridExponent (m * 2 ^ e / (m' * 2 ^ e')) := by
    show max (totalExponent m e - totalExponent m' e' - 53) (-1074) ≤ _
    unfold gridExponent
    omega
  generalize hf :
    min (e - e') (Format.binary64.targetExponent (totalExponent m e - totalExponent m' e')) = f
  obtain ⟨k, hk⟩ := Int.eq_ofNat_of_zero_le (by omega : 0 ≤ e - e' - f)
  rw [hk, Int.toNat_natCast]
  have hvalue : ((m <<< k : ℕ) / m' * 2 ^ f : ℚ) = m * 2 ^ e / (m' * 2 ^ e') := by
    rw [Nat.shiftLeft_eq, (by omega : e = k + f + e'), two_zpow_add, two_zpow_add, zpow_natCast]
    have hne : (m' : ℚ) ≠ 0 := by exact_mod_cast hm'.ne'
    push_cast
    field_simp
  have hpos : (0 : ℚ) < (m <<< k : ℕ) / m' := by
    rw [Nat.shiftLeft_eq]
    exact div_pos (by exact_mod_cast Nat.mul_pos hm (Nat.two_pow_pos k)) (by exact_mod_cast hm')
  rw [← hvalue]
  exact value_roundWithAccuracy s hpos (.ofFraction _ hm') (by rw [hvalue]; omega)

theorem value_unpacked_div {x y : UnpackedFloat} (hx' : x.isFinite) (hy : Regular y) :
    value (Float.Model.pack (UnpackedFloat.div Format.binary64 x y)).unpack =
      roundedValue (value x / value y) := by
  obtain ⟨s', m', e', hm', rfl⟩ := hy
  rcases x with s | _ | s | ⟨s, m, e, hm⟩
  case finite =>
    have hquotient : value (.finite s m e hm) / value (.finite s' m' e' hm') =
        factor (s / s') * (m * 2 ^ e / (m' * 2 ^ e')) := by
      rw [value, value, factor_div, mul_div_mul_comm]
    rw [hquotient]
    exact value_divCore (s / s') hm hm'
  case zero =>
    rw [value, zero_div, roundedValue_zero]
    exact value_pack_of_representable trivial
  all_goals contradiction

end Product

/-! ### Results of the processor -/

section Results

variable {x y : Float}

theorem value_add (hx : x.isFinite) (hy : y.isFinite) :
    value (parts (x + y)) = roundedValue (value (parts x) + value (parts y)) :=
  value_unpacked_add (representable_parts x) (representable_parts y) hx hy

theorem value_sub (hx : x.isFinite) (hy : y.isFinite) :
    value (parts (x - y)) = roundedValue (value (parts x) - value (parts y)) := by
  have hfinite : (parts y).neg.isFinite := isFinite_unpacked_neg.trans hy
  have hneg := representable_neg (representable_parts y)
  have hadd := value_unpacked_add (representable_parts x) hneg hx hfinite
  rw [value_neg, ← unpacked_sub, ← sub_eq_add_neg] at hadd
  exact hadd

theorem value_mul (hx : x.isFinite) (hy : y.isFinite) :
    value (parts (x * y)) = roundedValue (value (parts x) * value (parts y)) :=
  value_unpacked_mul (representable_parts x) (representable_parts y) hx hy

theorem value_div (hx : x.isFinite) (hy : Regular (parts y)) :
    value (parts (x / y)) = roundedValue (value (parts x) / value (parts y)) :=
  value_unpacked_div hx hy

@[simp] theorem value_zero : value (parts 0.0) = 0 := by rfl

@[simp] theorem value_one : value (parts 1.0) = 1 := by
  rw [parts_one]
  norm_num [value, factor]

theorem isFinite_of_regular (h : Regular (parts x)) : x.isFinite := by
  obtain ⟨s, m, e, hm, hparts⟩ := h
  show (parts x).isFinite
  rw [hparts]
  rfl

theorem value_toFloat {n : ℕ} (hn : n < 2 ^ 64) : value (parts n.toUInt64.toFloat) = roundedValue n := by
  have htoNat : n.toUInt64.toNat = n := UInt64.toNat_ofNat_of_lt hn
  show value (Float.Model.pack (normalize Format.binary64 n.toUInt64.toNat 0 .positive)).unpack = _
  rw [value_normalize, htoNat, zpow_zero, mul_one, Int.cast_natCast]

theorem value_ofScientific {n : ℕ} (hpos : 0 < n) :
    value (Float.Model.pack (UnpackedFloat.ofScientific Format.binary64 n 0)).unpack = roundedValue n := by
  have hmantissa : (0 : ℚ) < (n <<< 53 * 1 : ℕ) := by
    rw [Nat.shiftLeft_eq]
    exact_mod_cast Nat.mul_pos (Nat.mul_pos hpos (by decide)) one_pos
  have hcount : ((n <<< 53 * 1 : ℕ) : ℚ) * 2 ^ (-53 + 0 : ℤ) = n := by
    rw [Nat.shiftLeft_eq]
    push_cast
    norm_num
    ring
  have hgrid : -53 + 0 ≤ gridExponent n := by
    have hlog := Int.log_mono_right (b := 2) one_pos (by exact_mod_cast hpos : (1 : ℚ) ≤ n)
    rw [Int.log_one_right] at hlog
    unfold gridExponent
    omega
  rw [ofScientific_eq hpos, value_roundWithAccuracy .positive hmantissa (.exact _) (by rwa [hcount]),
    hcount, factor, one_mul]

/-- A count is rounded once, although the numeral of a small one is multiplied by one. -/
theorem value_ofNat {n : ℕ} (hn : n < 2 ^ 64) : value (parts (Float.ofNat n)) = roundedValue n := by
  rcases Nat.eq_zero_or_pos n with rfl | hpos
  · exact roundedValue_zero.symm
  have hofNat : Float.ofNat n = Float.ofScientific n false 0 := rfl
  rw [hofNat]
  unfold Float.ofScientific
  split
  · rename_i hsmall
    have hfinite := isFinite_of_regular (normal_toFloat hpos hsmall.1).regular
    have hproduct := value_mul hfinite (rfl : Float.isFinite 1.0)
    rw [value_one, mul_one, roundedValue_value (representable_parts _) hfinite, value_toFloat hn] at hproduct
    exact hproduct
  · exact value_ofScientific hpos

theorem isFinite_ofNat {n : ℕ} (hn : n < 2 ^ 64) : (Float.ofNat n).isFinite := by
  rcases Nat.eq_zero_or_pos n with rfl | hpos
  · rfl
  · exact isFinite_of_regular (regular_ofNat hpos hn)

theorem isFinite_neg (hx : x.isFinite) : (-x).isFinite := by
  show (Float.Model.pack (parts x).neg).unpack.isFinite
  rw [unpack_pack_of_representable (representable_neg (representable_parts x)), isFinite_unpacked_neg]
  exact hx

theorem parts_abs : parts x.abs = (parts x).abs :=
  unpack_pack_of_representable (representable_abs (representable_parts x))

theorem not_isNaN_abs (hx : ¬x.isNaN) : ¬x.abs.isNaN := by
  rw [isNaN_iff] at hx ⊢
  rw [parts_abs]
  cases hparts : parts x with
  | notANumber => exact absurd hparts hx
  | _ => nofun

end Results

/-! ### Order -/

section Order

variable {x y z : Float}

theorem abs_factor_mul (s : Sign) {q : ℚ} (hq : 0 ≤ q) : |factor s * q| = q := by
  cases s
  · rw [factor, neg_one_mul, abs_neg, abs_of_nonneg hq]
  · rw [factor, one_mul, abs_of_nonneg hq]

theorem value_abs (x : Float) : value (parts x.abs) = |value (parts x)| := by
  rw [parts_abs]
  cases parts x with
  | notANumber => exact abs_zero.symm
  | infinity s => exact (one_mul limit).trans (abs_factor_mul s limit_pos.le).symm
  | zero s => exact abs_zero.symm
  | finite s m e hm => exact (one_mul _).trans (abs_factor_mul s (magnitude_pos e hm).le).symm

/-- Finite numbers lie between the infinite ones. -/
theorem abs_value_lt (hx : x.isFinite) : |value (parts x)| < limit := by
  have hx' : (parts x).isFinite := hx
  cases hparts : parts x with
  | notANumber => rw [hparts] at hx'; cases hx'
  | infinity s => rw [hparts] at hx'; cases hx'
  | zero s => exact abs_zero.trans_lt limit_pos
  | finite s m e hm =>
    obtain ⟨hcanonical, he⟩ := canonical_of_parts hparts
    rw [value, abs_factor_mul s (magnitude_pos e hm).le]
    exact magnitude_lt_limit hcanonical he

theorem abs_value_le (x : Float) : |value (parts x)| ≤ limit := by
  cases hparts : parts x with
  | notANumber => exact abs_zero.trans_le limit_pos.le
  | infinity s => exact (abs_factor_mul s limit_pos.le).le
  | zero s => exact abs_zero.trans_le limit_pos.le
  | finite s m e hm =>
    have hlt := abs_value_lt (x := x) (by show (parts x).isFinite; rw [hparts]; rfl)
    rw [hparts] at hlt
    exact hlt.le

theorem isFinite_of_abs_lt (hx : ¬x.isNaN) (h : |value (parts x)| < limit) : x.isFinite := by
  show (parts x).isFinite
  cases hparts : parts x with
  | notANumber => exact absurd (isNaN_iff.mpr hparts) hx
  | infinity s =>
    rw [hparts, value, abs_factor_mul s limit_pos.le] at h
    exact absurd h (lt_irrefl _)
  | zero s => rfl
  | finite s m e hm => rfl

/-- Numbers in order are finite, or the lesser is infinite or the greater. -/
theorem finite_or_infinite_of_le (h : x ≤ y) :
    (x.isFinite ∧ y.isFinite) ∨ value (parts x) = -limit ∨ value (parts y) = limit := by
  obtain ⟨hx, hy, hle⟩ := le_iff_value.mp h
  by_cases hlow : value (parts x) = -limit
  · exact .inr (.inl hlow)
  by_cases hhigh : value (parts y) = limit
  · exact .inr (.inr hhigh)
  have hlow : -limit < value (parts x) := (abs_le.mp (abs_value_le x)).1.lt_of_ne' hlow
  have hhigh : value (parts y) < limit := (abs_le.mp (abs_value_le y)).2.lt_of_ne hhigh
  left
  constructor
  · exact isFinite_of_abs_lt hx (abs_lt.mpr ⟨hlow, hle.trans_lt hhigh⟩)
  · exact isFinite_of_abs_lt hy (abs_lt.mpr ⟨hlow.trans_le hle, hhigh⟩)

end Order

/-! ### Operations in order -/

section Operands

variable {x y z : Float}

theorem exists_infinity_of_abs (h : |value (parts x)| = limit) : ∃ s, parts x = .infinity s := by
  cases hparts : parts x with
  | infinity s => exact ⟨s, rfl⟩
  | notANumber =>
    rw [hparts, value, abs_zero] at h
    exact absurd h limit_pos.ne
  | zero s =>
    rw [hparts, value, abs_zero] at h
    exact absurd h limit_pos.ne
  | finite s m e hm =>
    have hfinite : x.isFinite := by
      show (parts x).isFinite
      rw [hparts]
      rfl
    exact absurd h (abs_value_lt hfinite).ne

theorem value_add_of_infinite (hx : x.isFinite) (hy : |value (parts y)| = limit) :
    value (parts (x + y)) = value (parts y) := by
  obtain ⟨s, hparts⟩ := exists_infinity_of_abs hy
  have hx' : (parts x).isFinite := hx
  have hsum : UnpackedFloat.add Format.binary64 (parts x) (parts y) = .infinity s := by
    rw [hparts]
    cases hcase : parts x <;> rw [hcase] at hx' <;> first | contradiction | rfl
  show value (Float.Model.pack (UnpackedFloat.add Format.binary64 (parts x) (parts y))).unpack = _
  rw [hsum, hparts]
  exact value_pack_of_representable trivial

theorem add_le_add_left (hx : x.isFinite) (h : y ≤ z) : x + y ≤ x + z := by
  obtain ⟨hy, hz, hle⟩ := le_iff_value.mp h
  apply le_of_value (not_isNaN_add hx hy) (not_isNaN_add hx hz)
  rcases finite_or_infinite_of_le h with ⟨hy', hz'⟩ | hlow | hhigh
  · rw [value_add hx hy', value_add hx hz']
    exact roundedValue_mono (by linarith)
  · rw [value_add_of_infinite hx (by rw [hlow, abs_neg, abs_of_pos limit_pos]), hlow]
    exact (abs_le.mp (abs_value_le _)).1
  · rw [value_add_of_infinite (y := z) hx (by rw [hhigh, abs_of_pos limit_pos]), hhigh]
    exact (abs_le.mp (abs_value_le _)).2

/-- A product with an infinite number is infinite, unless it is undefined, and it has the sign of the product
of the values. -/
theorem unpacked_mul_of_infinite {x y : UnpackedFloat}
    (hd : (sign? (UnpackedFloat.mul Format.binary64 x y)).isSome) (h : ¬(x.isFinite ∧ y.isFinite)) :
    ∃ s q, 0 < q ∧ value x * value y = factor s * q ∧
      UnpackedFloat.mul Format.binary64 x y = .infinity s := by
  have hproduct (s s' : Sign) (q q' : ℚ) :
      factor s * q * (factor s' * q') = factor (s * s') * (q * q') := by
    rw [factor_mul]
    ring
  rcases x with s | _ | s | ⟨s, m, e, hm⟩ <;> rcases y with s' | _ | s' | ⟨s', m', e', hm'⟩ <;>
    first
    | contradiction
    | exact absurd ⟨rfl, rfl⟩ h
    | refine ⟨s * s', _, ?_, hproduct .., rfl⟩
  case infinity.infinity => exact mul_pos limit_pos limit_pos
  case infinity.finite => exact mul_pos limit_pos (magnitude_pos e' hm')
  case finite.infinity => exact mul_pos (magnitude_pos e hm) limit_pos

/-- No number lies beyond such a product. -/
theorem value_mul_of_infinite (hd : ¬(x * y).isNaN) (h : ¬(x.isFinite ∧ y.isFinite)) (z : Float) :
    (0 ≤ value (parts x) * value (parts y) → value (parts z) ≤ value (parts (x * y))) ∧
      (value (parts x) * value (parts y) ≤ 0 → value (parts (x * y)) ≤ value (parts z)) := by
  rw [not_isNaN_iff, sign?_parts_mul] at hd
  obtain ⟨s, q, hq, hproduct, hmul⟩ := unpacked_mul_of_infinite (x := parts x) (y := parts y) hd h
  have hvalue : value (parts (x * y)) = factor s * limit := by
    show value (Float.Model.pack (UnpackedFloat.mul Format.binary64 (parts x) (parts y))).unpack = _
    rw [hmul]
    exact value_pack_of_representable trivial
  obtain ⟨hlow, hhigh⟩ := abs_le.mp (abs_value_le z)
  rw [hproduct, hvalue]
  cases s with
  | positive => exact ⟨fun _ => by simpa [factor] using hhigh, fun h => absurd h (by simpa [factor] using hq)⟩
  | negative => exact ⟨fun h => absurd h (by simpa [factor] using hq), fun _ => by simpa [factor] using hlow⟩

theorem not_isFinite_of_abs (h : |value (parts x)| = limit) : ¬x.isFinite := fun hx =>
  (abs_value_lt hx).ne h

/-- A number times greater ones goes the way of its sign. An infinite one has to be multiplied by numbers that
are not less than zero, so that the products have one sign. -/
theorem value_mul_le_value_mul (hy : x.isFinite ∨ 0.0 ≤ y) (h : y ≤ z) (hxy : ¬(x * y).isNaN)
    (hxz : ¬(x * z).isNaN) :
    (0 ≤ value (parts x) → value (parts (x * y)) ≤ value (parts (x * z))) ∧
      (value (parts x) ≤ 0 → value (parts (x * z)) ≤ value (parts (x * y))) := by
  have hle := value_le h
  have hlimit := limit_pos.le
  by_cases hx : x.isFinite
  · rcases finite_or_infinite_of_le h with ⟨hy, hz⟩ | hleast | hgreatest
    · rw [value_mul hx hy, value_mul hx hz]
      constructor <;> intro hx <;> apply roundedValue_mono
      · exact mul_le_mul_of_nonneg_left hle hx
      · exact mul_le_mul_of_nonpos_left hle hx
    · have hy : ¬y.isFinite := not_isFinite_of_abs (by rw [hleast, abs_neg, abs_of_nonneg hlimit])
      obtain ⟨hup, hdown⟩ := value_mul_of_infinite hxy (fun hfinite => hy hfinite.2) (x * z)
      exact ⟨fun hx => hdown (mul_nonpos_of_nonneg_of_nonpos hx (by linarith)),
        fun hx => hup (mul_nonneg_of_nonpos_of_nonpos hx (by linarith))⟩
    · have hz : ¬z.isFinite := not_isFinite_of_abs (by rw [hgreatest, abs_of_nonneg hlimit])
      obtain ⟨hup, hdown⟩ := value_mul_of_infinite hxz (fun hfinite => hz hfinite.2) (x * y)
      exact ⟨fun hx => hup (mul_nonneg hx (by linarith)),
        fun hx => hdown (mul_nonpos_of_nonpos_of_nonneg hx (by linarith))⟩
  · have hy : 0 ≤ value (parts y) := value_zero ▸ value_le (hy.resolve_left hx)
    obtain ⟨hup, hdown⟩ := value_mul_of_infinite hxz (fun hfinite => hx hfinite.1) (x * y)
    exact ⟨fun hx => hup (mul_nonneg hx (hy.trans hle)),
      fun hx => hdown (mul_nonpos_of_nonpos_of_nonneg hx (hy.trans hle))⟩

theorem mul_le_mul_left (hx : 0.0 ≤ x) (hy : x.isFinite ∨ 0.0 ≤ y) (h : y ≤ z) (hxy : ¬(x * y).isNaN)
    (hxz : ¬(x * z).isNaN) : x * y ≤ x * z := by
  have hx : 0 ≤ value (parts x) := value_zero ▸ value_le hx
  exact le_of_value hxy hxz ((value_mul_le_value_mul hy h hxy hxz).1 hx)

theorem mul_le_mul_left_of_nonpos (hx : x ≤ 0.0) (hy : x.isFinite ∨ 0.0 ≤ y) (h : y ≤ z)
    (hxy : ¬(x * y).isNaN) (hxz : ¬(x * z).isNaN) : x * z ≤ x * y := by
  have hx : value (parts x) ≤ 0 := value_zero ▸ value_le hx
  exact le_of_value hxz hxy ((value_mul_le_value_mul hy h hxy hxz).2 hx)

theorem sub_nonneg (hx : x.isFinite) (hy : y.isFinite) (h : y ≤ x) : 0.0 ≤ x - y := by
  apply le_of_value (by decide) (not_isNaN_sub hx hy)
  rw [value_zero, value_sub hx hy]
  exact roundedValue_nonneg (by linarith [value_le h])

theorem sub_nonpos (hx : x.isFinite) (hy : y.isFinite) (h : x ≤ y) : x - y ≤ 0.0 := by
  apply le_of_value (not_isNaN_sub hx hy) (by decide)
  rw [value_zero, value_sub hx hy, ← roundedValue_zero]
  exact roundedValue_mono (by linarith [value_le h])

theorem sub_le_sub_left (hx : x.isFinite) (hy : y.isFinite) (hz : z.isFinite) (h : y ≤ z) :
    x - z ≤ x - y := by
  apply le_of_value (not_isNaN_sub hx hz) (not_isNaN_sub hx hy)
  rw [value_sub hx hz, value_sub hx hy]
  exact roundedValue_mono (by linarith [value_le h])

theorem div_le_div_right (hx : x.isFinite) (hy : y.isFinite) (hz : Regular (parts z)) (hpos : 0.0 < z)
    (h : x ≤ y) : x / z ≤ y / z := by
  obtain ⟨hx', hy', h⟩ := le_iff_value.mp h
  have hpos : 0 < value (parts z) := value_zero ▸ value_lt hpos
  apply le_of_value (not_isNaN_div hx' hz) (not_isNaN_div hy' hz)
  rw [value_div hx hz, value_div hy hz]
  exact roundedValue_mono (div_le_div_of_nonneg_right h hpos.le)

/-- The more is taken from one, the less is the square of what is left. -/
theorem square_one_sub_le (hpos : 0.0 < x) (h : x ≤ y) (hlt : y < 1.0) :
    0.0 ≤ (1.0 - y) * (1.0 - y) ∧ (1.0 - y) * (1.0 - y) ≤ (1.0 - x) * (1.0 - x) := by
  have hpos' : 0.0 < y := lt_of_lt_of_le hpos h
  have hlt' : x < 1.0 := lt_of_le_of_lt h hlt
  have hfinite {p : Float} (hp : 0.0 < p) (hp' : p < 1.0) : p.isFinite ∧ (1.0 - p).isFinite :=
    ⟨isFinite_of_regular (regular_of_fraction hp hp'), isFinite_of_regular (normal_one_sub hp hp').regular⟩
  have hnumber {p : Float} (hp : 0.0 < p) (hp' : p < 1.0) : ¬((1.0 - p) * (1.0 - p)).isNaN :=
    not_isNaN_of_regular (regular_square_one_sub hp hp')
  obtain ⟨hx, hleft⟩ := hfinite hpos hlt'
  obtain ⟨hy, hleft'⟩ := hfinite hpos' hlt
  have hone : (1.0 : Float).isFinite := rfl
  have hnonneg : 0 ≤ value (parts (1.0 - y)) := value_zero ▸ value_le (sub_nonneg hone hy (le_of_lt hlt))
  have hle := value_le (sub_le_sub_left hone hx hy h)
  constructor
  · apply le_of_value (by decide) (hnumber hpos' hlt)
    rw [value_zero, value_mul hleft' hleft']
    exact roundedValue_nonneg (mul_self_nonneg _)
  · apply le_of_value (hnumber hpos' hlt) (hnumber hpos hlt')
    rw [value_mul hleft' hleft', value_mul hleft hleft]
    exact roundedValue_mono (mul_self_le_mul_self hnonneg hle)

theorem pos_of_regular (hx : Regular (parts x)) (h : ¬x < 0.0) : 0.0 < x := by
  have hnumber := not_isNaN_of_regular hx
  obtain ⟨s, m, e, hm, hparts⟩ := hx
  have hpos := magnitude_pos e hm
  cases s with
  | positive =>
    refine lt_iff_value.mpr ⟨by decide, hnumber, ?_⟩
    rwa [value_zero, hparts, value, factor, one_mul]
  | negative =>
    refine absurd (lt_iff_value.mpr ⟨hnumber, by decide, ?_⟩) h
    rw [value_zero, hparts, value, factor]
    linarith

@[simp] theorem roundedValue_one : roundedValue 1 = 1 := by
  rw [← value_one]
  exact roundedValue_value (representable_parts 1.0) rfl

theorem one_le_div (hx : x.isFinite) (hy : Regular (parts y)) (h : 1 ≤ value (parts x) / value (parts y)) :
    1.0 ≤ x / y := by
  apply le_of_value (by decide) (not_isNaN_div (not_isNaN_of_isFinite hx) hy)
  rw [value_one, value_div hx hy, ← roundedValue_one]
  exact roundedValue_mono h

theorem div_le_one (hx : x.isFinite) (hy : Regular (parts y)) (h : value (parts x) / value (parts y) ≤ 1) :
    x / y ≤ 1.0 := by
  apply le_of_value (not_isNaN_div (not_isNaN_of_isFinite hx) hy) (by decide)
  rw [value_one, value_div hx hy, ← roundedValue_one]
  exact roundedValue_mono h

theorem ofNat_le {m n : ℕ} (h : m ≤ n) (hn : n < 2 ^ 64) : Float.ofNat m ≤ Float.ofNat n := by
  have hm : m < 2 ^ 64 := h.trans_lt hn
  apply le_of_value (not_isNaN_ofNat hm) (not_isNaN_ofNat hn)
  rw [value_ofNat hm, value_ofNat hn]
  exact roundedValue_mono (by exact_mod_cast h)

end Operands

end Regimen.Binary64
