import Mathlib

/-!
# Binary64 numbers

What is needed of the arithmetic of the processor. A number is taken apart into a sign, a mantissa and an
exponent (`parts`), or it is infinite, zero or undefined. Comparison is the order of a rank (`rank`), so
that all laws of orders hold of numbers that are not undefined (`le_iff`, `lt_iff`). A result of the basic
operations has a sign unless it is undefined, and taking it apart gives the same sign
(`sign?_unpack_pack`); and **results in the normal range are what rounding has made of them**
(`Normal.unpack_pack`).

The whole of Mathlib is imported, since the lemmas of Batteries on packing and unpacking come with no
smaller part of it.
-/

namespace Regimen.Binary64

open Float.Model Float.Model.UnpackedFloat

/-- The sign, the mantissa and the exponent of a number. -/
def parts (x : Float) : UnpackedFloat := x.toModel.unpack

/-! ### Comparison -/

/-- Where a number stands among the others. Numbers of one sign go by their exponents, and those with
the same exponent by their mantissas; an undefined number stands nowhere, and its rank says nothing. -/
def rank : UnpackedFloat → ℤ ×ₗ ℤ ×ₗ ℤ
  | .infinity .negative => toLex (-2, toLex (0, 0))
  | .finite .negative m e _ => toLex (-1, toLex (-e, -m))
  | .zero _ | .notANumber => toLex (0, toLex (0, 0))
  | .finite .positive m e _ => toLex (1, toLex (e, m))
  | .infinity .positive => toLex (2, toLex (0, 0))

theorem rank_zero : rank (parts 0.0) = toLex (0, toLex (0, 0)) := by rfl

theorem compare_neg_neg (a b : ℤ) : compare (-a) (-b) = (compare a b).swap := by
  rcases lt_trichotomy a b with h | rfl | h
  · rw [compare_lt_iff_lt.mpr h, compare_gt_iff_gt.mpr (Int.neg_lt_neg h)]
    rfl
  · rw [compare_eq_iff_eq.mpr rfl, compare_eq_iff_eq.mpr rfl]
    rfl
  · rw [compare_gt_iff_gt.mpr h, compare_lt_iff_lt.mpr (Int.neg_lt_neg h)]
    rfl

theorem compare_natCast (a b : ℕ) : compare (a : ℤ) (b : ℤ) = compare a b := by
  simp only [compare, compareOfLessAndEq, Int.ofNat_lt, Int.ofNat_inj]

/-- Numbers compare as their ranks do. Only where the signs and the kinds are the same is there anything
to compare. -/
theorem compare_eq_of_rank {x y : UnpackedFloat} (hx : x ≠ .notANumber) (hy : y ≠ .notANumber) :
    x.compare y = some (compare (rank x) (rank y)) := by
  rcases x with ⟨_ | _⟩ | _ | ⟨_ | _⟩ | ⟨_ | _, m, e, hm⟩ <;>
    rcases y with ⟨_ | _⟩ | _ | ⟨_ | _⟩ | ⟨_ | _, m', e', hm'⟩ <;>
      first
      | contradiction
      | rfl
      | skip
  case finite.negative.finite.negative =>
    show some _ = some (Ordering.then .eq ((compare (-e) (-e')).then (compare (-(m : ℤ)) (-(m' : ℤ)))))
    rw [compare_neg_neg, compare_neg_neg, compare_natCast, ← Ordering.swap_then]
    rfl
  case finite.positive.finite.positive =>
    show some _ = some (Ordering.then .eq ((compare e e').then (compare (m : ℤ) (m' : ℤ))))
    rw [compare_natCast]
    rfl

theorem isNaN_iff {x : Float} : x.isNaN ↔ parts x = .notANumber := UnpackedFloat.isNaN_iff

theorem compare_nan_left (y : UnpackedFloat) : UnpackedFloat.compare .notANumber y = none := rfl

theorem compare_nan_right (x : UnpackedFloat) : x.compare .notANumber = none := by
  cases x <;> rfl

theorem lt_iff {x y : Float} :
    x < y ↔ ¬x.isNaN ∧ ¬y.isNaN ∧ rank (parts x) < rank (parts y) := by
  have hlt : x < y ↔ ((parts x).compare (parts y) == some .lt) = true := decide_eq_true_iff
  rw [hlt, isNaN_iff, isNaN_iff]
  by_cases hx : parts x = .notANumber
  · simp [hx, compare_nan_left]
  by_cases hy : parts y = .notANumber
  · simp [hy, compare_nan_right]
  simp [compare_eq_of_rank hx hy, hx, hy, compare_lt_iff_lt]

theorem le_iff {x y : Float} :
    x ≤ y ↔ ¬x.isNaN ∧ ¬y.isNaN ∧ rank (parts x) ≤ rank (parts y) := by
  have hle : x ≤ y ↔ ((parts x).compare (parts y)).any (·.isLE) = true := decide_eq_true_iff
  rw [hle, isNaN_iff, isNaN_iff]
  by_cases hx : parts x = .notANumber
  · simp [hx, compare_nan_left]
  by_cases hy : parts y = .notANumber
  · simp [hy, compare_nan_right]
  simp [compare_eq_of_rank hx hy, hx, hy, ← Ordering.ne_gt_iff_isLE, compare_le_iff_le]

section Order

variable {x y z : Float}

theorem le_rfl (h : ¬x.isNaN) : x ≤ x := le_iff.mpr ⟨h, h, le_refl _⟩

theorem le_of_lt (h : x < y) : x ≤ y :=
  have ⟨hx, hy, hlt⟩ := lt_iff.mp h
  le_iff.mpr ⟨hx, hy, hlt.le⟩

theorem le_of_not_lt (hx : ¬x.isNaN) (hy : ¬y.isNaN) (h : ¬x < y) : y ≤ x :=
  le_iff.mpr ⟨hy, hx, not_lt.mp fun hlt => h (lt_iff.mpr ⟨hx, hy, hlt⟩)⟩

theorem lt_of_not_le (hx : ¬x.isNaN) (hy : ¬y.isNaN) (h : ¬x ≤ y) : y < x :=
  lt_iff.mpr ⟨hy, hx, not_le.mp fun hle => h (le_iff.mpr ⟨hx, hy, hle⟩)⟩

theorem le_or_le (hx : ¬x.isNaN) (hy : ¬y.isNaN) : x ≤ y ∨ y ≤ x :=
  (le_total (rank (parts x)) (rank (parts y))).imp (le_iff.mpr ⟨hx, hy, ·⟩) (le_iff.mpr ⟨hy, hx, ·⟩)

theorem le_trans (h : x ≤ y) (h' : y ≤ z) : x ≤ z :=
  have ⟨hx, _, hle⟩ := le_iff.mp h
  have ⟨_, hz, hle'⟩ := le_iff.mp h'
  le_iff.mpr ⟨hx, hz, hle.trans hle'⟩

theorem lt_of_lt_of_le (h : x < y) (h' : y ≤ z) : x < z :=
  have ⟨hx, _, hlt⟩ := lt_iff.mp h
  have ⟨_, hz, hle⟩ := le_iff.mp h'
  lt_iff.mpr ⟨hx, hz, hlt.trans_le hle⟩

theorem lt_of_le_of_lt (h : x ≤ y) (h' : y < z) : x < z :=
  have ⟨hx, _, hle⟩ := le_iff.mp h
  have ⟨_, hz, hlt⟩ := lt_iff.mp h'
  lt_iff.mpr ⟨hx, hz, hle.trans_lt hlt⟩

end Order

/-! ### Signs -/

/-- The sign that is written with a number; an undefined number has none. -/
def sign? : UnpackedFloat → Option Sign
  | .notANumber => none
  | .infinity s | .zero s | .finite s _ _ _ => some s

theorem not_isNaN_iff {x : Float} : ¬x.isNaN ↔ (sign? (parts x)).isSome := by
  rw [isNaN_iff]
  cases parts x <;> simp [sign?]

/-! ### Taking numbers apart -/

theorem toNat_one_append (m : BitVec 52) : (1#1 ++ m).toNat = 2 ^ 52 + m.toNat := by
  rw [BitVec.toNat_append]
  show 2 ^ 52 ||| m.toNat = _
  rw [Nat.or_comm, Nat.or_two_pow_eq_add_of_lt m.isLt, Nat.add_comm]

section Components

variable (s : Sign) {e : BitVec 11} {m : BitVec 52}

theorem unpack_packComponents_normal (he : e ≠ -1#11) (he' : e ≠ 0#11) :
    UnpackedFloat.unpack Format.binary64 (packComponents Format.binary64 s e m) =
      .finite s (2 ^ 52 + m.toNat) (e.toNat - 1075) (by omega) := by
  simp only [UnpackedFloat.unpack, unpackExponent_packComponents, unpackMantissa_packComponents,
    unpackSign_packComponents, Sign.ofBitVec_toBitVec, if_neg he, if_neg he']
  congr 1
  exact toNat_one_append m

theorem unpack_packComponents_subnormal {m : ℕ} (hm : 0 < m) (hlt : m < 2 ^ 52) :
    UnpackedFloat.unpack Format.binary64 (packComponents Format.binary64 s 0#11 (BitVec.ofNat 52 m)) =
      .finite s m (-1074) hm := by
  have hmantissa : (BitVec.ofNat 52 m).toNat = m := by
    rw [BitVec.toNat_ofNat, Nat.mod_eq_of_lt hlt]
  have hne : BitVec.ofNat 52 m ≠ 0#52 := by
    intro h
    rw [h] at hmantissa
    exact hm.ne hmantissa
  simp only [UnpackedFloat.unpack, unpackExponent_packComponents, unpackMantissa_packComponents,
    unpackSign_packComponents, Sign.ofBitVec_toBitVec, if_neg (by decide : 0#11 ≠ -1#11), if_pos, dif_neg hne,
    hmantissa]
  rfl

theorem sign?_unpack_packComponents (h : e = -1#11 → m = 0#52) :
    sign? (UnpackedFloat.unpack Format.binary64 (packComponents Format.binary64 s e m)) = some s := by
  simp only [UnpackedFloat.unpack, unpackExponent_packComponents, unpackMantissa_packComponents,
    unpackSign_packComponents, Sign.ofBitVec_toBitVec]
  split
  · rename_i he
    rw [if_pos (h he)]
    rfl
  · split
    · split <;> rfl
    · rfl

end Components

/-- A mantissa has 53 bits at most, and fewer only with the least exponent. -/
structure Canonical (m : ℕ) (e : ℤ) : Prop where
  /-- There are no more bits. -/
  lt : m < 2 ^ 53
  /-- There is a least exponent. -/
  le : -1074 ≤ e
  /-- There are no fewer bits. -/
  full : 2 ^ 52 ≤ m ∨ e = -1074

/-- The parts of a finite number are canonical, and its exponent is not too great. -/
theorem canonical_of_parts {x : Float} {s : Sign} {m : ℕ} {e : ℤ} {hm : 0 < m}
    (h : parts x = .finite s m e hm) : Canonical m e ∧ e ≤ 971 := by
  have hbias : ((Format.binary64.exponentBias + 52 : ℕ) : ℤ) = 1075 := rfl
  have hmantissa (v : BitVec 52) : v.toNat < 2 ^ 52 := v.isLt
  unfold parts Float.Model.unpack UnpackedFloat.unpack at h
  dsimp only at h
  split at h
  · split at h <;> cases h
  rename_i hones
  split at h
  · rename_i hzero
    split at h
    · cases h
    · injection h with _ hm' he
      subst hm' he
      rw [hzero]
      exact ⟨⟨(hmantissa _).trans (by decide), by decide, .inr rfl⟩, by decide⟩
  · rename_i hzero
    injection h with _ hm' he
    subst hm' he
    have hexponent (v : BitVec 11) (h : v ≠ -1#11) (h' : v ≠ 0#11) : 0 < v.toNat ∧ v.toNat < 2047 := by
      have hlt : v.toNat < 2048 := v.isLt
      have hones : v.toNat ≠ 2047 := fun heq => h (BitVec.eq_of_toNat_eq heq)
      have hzero : v.toNat ≠ 0 := fun heq => h' (BitVec.eq_of_toNat_eq heq)
      omega
    obtain ⟨hpos, hlt'⟩ := hexponent _ hones hzero
    have hlt := hmantissa (@unpackMantissa Format.binary64 x.toModel.toBits.toBitVec)
    rw [toNat_one_append]
    exact ⟨⟨by omega, by omega, .inl (by omega)⟩, by omega⟩

theorem Canonical.log2_of_full {m : ℕ} {e : ℤ} (h : Canonical m e) (hfull : 2 ^ 52 ≤ m) : m.log2 = 52 := by
  have hm : m ≠ 0 := by omega
  have hge := (Nat.le_log2 hm).mpr hfull
  have hlt := (Nat.log2_lt hm).mpr h.lt
  omega

/-- Canonical parts are what a number that is put together from them has, unless it is too great. -/
theorem unpack_pack_of_canonical {s : Sign} {m : ℕ} {e : ℤ} {hm : 0 < m} (h : Canonical m e) (he : e ≤ 971) :
    (Float.Model.pack (.finite s m e hm)).unpack = .finite s m e hm := by
  have hbias : ((Format.binary64.exponentBias : ℕ) : ℤ) = 1023 := rfl
  have hle := h.le
  have hlt := h.lt
  show UnpackedFloat.unpack _ (UnpackedFloat.pack _ _) = _
  unfold UnpackedFloat.pack
  simp only [hbias]
  generalize hb : (e + 1023 + ((52 : ℕ) : ℤ)).toNat = b
  rw [if_neg (by omega)]
  by_cases hfull : 2 ^ 52 ≤ m
  · rw [if_pos (by rw [h.log2_of_full hfull]; rfl)]
    have hexponent : (BitVec.ofNat 11 b).toNat = b := by
      rw [BitVec.toNat_ofNat, Nat.mod_eq_of_lt (by omega)]
    have hmantissa : (BitVec.ofNat 52 m).toNat = m % 2 ^ 52 := BitVec.toNat_ofNat m 52
    have hne (v : BitVec 11) (hv : v.toNat ≠ b) : BitVec.ofNat 11 b ≠ v := fun h => hv (h ▸ hexponent)
    have hones : (-1#11).toNat = 2047 := rfl
    have hzero : (0#11).toNat = 0 := rfl
    rw [unpack_packComponents_normal s (hne _ (by omega)) (hne _ (by omega))]
    congr 1 <;> omega
  · obtain rfl := h.full.resolve_left hfull
    have hlog : m.log2 < 52 := (Nat.log2_lt hm.ne').mpr (by omega)
    rw [if_neg (by show m.log2 + 1 ≠ 53; omega)]
    exact unpack_packComponents_subnormal s hm (by omega)

theorem unpack_pack_of_great {s : Sign} {m : ℕ} {e : ℤ} {hm : 0 < m} (he : 971 < e) :
    (Float.Model.pack (.finite s m e hm)).unpack = .infinity s := by
  have hbias : ((Format.binary64.exponentBias : ℕ) : ℤ) = 1023 := rfl
  show UnpackedFloat.unpack _ (UnpackedFloat.pack _ _) = _
  unfold UnpackedFloat.pack
  simp only [hbias]
  rw [if_pos (by omega)]
  simp only [packedInfinity, UnpackedFloat.unpack, unpackExponent_packComponents,
    unpackMantissa_packComponents, unpackSign_packComponents, Sign.ofBitVec_toBitVec]
  rfl

/-- What is put together from parts has their sign. Numbers that are too great become infinite, and
those that are too small may become zero, but none becomes undefined. -/
theorem sign?_unpack_pack (x : UnpackedFloat) : sign? (Float.Model.pack x).unpack = sign? x := by
  show sign? (UnpackedFloat.unpack _ (UnpackedFloat.pack _ x)) = _
  cases x with
  | notANumber => rfl
  | infinity s => exact sign?_unpack_packComponents s fun _ => rfl
  | zero s => exact sign?_unpack_packComponents s fun _ => rfl
  | finite s m e hm =>
    unfold UnpackedFloat.pack
    dsimp only
    split
    · exact sign?_unpack_packComponents s fun _ => rfl
    split
    · rename_i hfits _
      refine sign?_unpack_packComponents s fun he => absurd (congrArg BitVec.toNat he) ?_
      have hones : (-1#11).toNat = 2047 := rfl
      rw [BitVec.toNat_ofNat, hones]
      omega
    · exact sign?_unpack_packComponents s fun he => absurd he (by decide)

/-- A number that is written with a plus is not less than zero. -/
theorem nonneg_of_sign? {x : Float} (h : sign? (parts x) = some .positive) : 0.0 ≤ x := by
  have hx : ¬x.isNaN := not_isNaN_iff.mpr (by rw [h]; rfl)
  refine le_iff.mpr ⟨by decide, hx, ?_⟩
  rw [rank_zero]
  rcases hparts : parts x with s | _ | s | ⟨s, m, e, hm⟩ <;> rw [hparts] at h <;> cases h
  · exact Prod.Lex.toLex_le_toLex.mpr (.inl (by decide))
  · exact le_refl _
  · exact Prod.Lex.toLex_le_toLex.mpr (.inl Int.zero_lt_one)

/-! ### Rounding -/

theorem mantissa_shiftRight (m : ExtendedMantissa) (k : ℕ) :
    (m >>> k).mantissa = m.mantissa / 2 ^ k := by
  induction k with
  | zero => exact (Nat.div_one _).symm
  | succ k ih =>
    show (m >>> k).mantissa / 2 = _
    rw [ih, Nat.div_div_eq_div_mul, ← Nat.pow_succ]

theorem roundedMantissa_bounds (m : ExtendedMantissa) :
    m.mantissa ≤ m.roundedMantissa ∧ m.roundedMantissa ≤ m.mantissa + 1 := by
  obtain ⟨m, _ | _, _ | _⟩ := m <;>
    simp only [ExtendedMantissa.roundedMantissa, ExtendedMantissa.accuracy,
      Accuracy.roundToNearestEven] <;> omega

/-- A mantissa with too many bits is cut down to 53 of them. -/
theorem shiftToTargetExponent_of_log2 {m k : ℕ} {e : ℤ} (accuracy : Accuracy) (hlog : m.log2 = 52 + k)
    (he : -1074 ≤ e + k) :
    (shiftToTargetExponent Format.binary64 m e accuracy).1.mantissa = m / 2 ^ k ∧
      (shiftToTargetExponent Format.binary64 m e accuracy).2 = e + k := by
  have htarget : Format.binary64.targetExponent (totalExponent m e) = e + k := by
    show max (m.log2 + 1 + e - 53) (-1074) = e + k
    omega
  have hshift : (e + k - e).toNat = k := by omega
  unfold shiftToTargetExponent shiftToExponent
  simp only [htarget, hshift, mantissa_shiftRight]
  refine ⟨?_, trivial⟩
  obtain _ | _ | _ | _ := accuracy <;> rfl

/-- A number with a full mantissa, whose exponent lies in a range. -/
def Normal (s : Sign) (low high : ℤ) (x : UnpackedFloat) : Prop :=
  ∃ m e hm, x = .finite s m e hm ∧ 2 ^ 52 ≤ m ∧ m < 2 ^ 53 ∧ low ≤ e ∧ e ≤ high

/-- Cut down to 53 bits, a mantissa is full. -/
theorem div_two_pow_bounds {m k : ℕ} (hm : m ≠ 0) (hlog : m.log2 = 52 + k) :
    2 ^ 52 ≤ m / 2 ^ k ∧ m / 2 ^ k < 2 ^ 53 := by
  constructor
  · rw [Nat.le_div_iff_mul_le (Nat.two_pow_pos k), ← Nat.pow_add, ← hlog]
    exact Nat.log2_self_le hm
  · rw [Nat.div_lt_iff_lt_mul (Nat.two_pow_pos k), ← Nat.pow_add, ← Nat.log2_lt hm]
    omega

/-- A rounded mantissa is full, or it has one bit too many and is a power of two. -/
theorem log2_of_rounded {r : ℕ} (hlow : 2 ^ 52 ≤ r) (hhigh : r ≤ 2 ^ 53) :
    ∃ i : ℕ, i ≤ 1 ∧ r.log2 = 52 + i := by
  have hr : r ≠ 0 := by omega
  rcases Nat.lt_or_eq_of_le hhigh with hlt | rfl
  · have hge := (Nat.le_log2 hr).mpr hlow
    have hlt := (Nat.log2_lt hr).mpr hlt
    exact ⟨0, Nat.zero_le 1, by omega⟩
  · exact ⟨1, Nat.le_refl 1, Nat.log2_two_pow⟩

/-- Rounding leaves a full mantissa where the exponent is not too small, and it changes the exponent
by one at most. -/
theorem normal_roundWithAccuracy (s : Sign) {m : ℕ} {e : ℤ} (accuracy : Accuracy)
    (hm : 2 ^ 52 ≤ m) (he : -1021 ≤ totalExponent m e) :
    Normal s (totalExponent m e - 53) (totalExponent m e - 52)
      (roundWithAccuracy Format.binary64 s m e accuracy) := by
  have hm0 : m ≠ 0 := by omega
  obtain ⟨k, hk⟩ := Nat.exists_eq_add_of_le ((Nat.le_log2 hm0).mpr hm)
  have htotal : totalExponent m e = e + k + 53 := by
    show (m.log2 : ℤ) + 1 + e = _
    omega
  obtain ⟨hmantissa, hexponent⟩ := shiftToTargetExponent_of_log2 accuracy hk (by omega : -1074 ≤ e + k)
  obtain ⟨hlow, hhigh⟩ := div_two_pow_bounds hm0 hk
  obtain ⟨hfloor, hceil⟩ := roundedMantissa_bounds (shiftToTargetExponent Format.binary64 m e accuracy).1
  rw [hmantissa] at hfloor hceil
  unfold roundWithAccuracy
  dsimp only
  rw [hexponent]
  generalize (shiftToTargetExponent Format.binary64 m e accuracy).1.roundedMantissa = r at hfloor hceil
  -- What was rounded up to one bit more is cut down again, which changes the exponent by one.
  obtain ⟨i, hi, hlog⟩ := log2_of_rounded (r := r) (by omega) (by omega)
  obtain ⟨hlow', hhigh'⟩ := div_two_pow_bounds (by omega) hlog
  obtain ⟨hmantissa', hexponent'⟩ :=
    shiftToTargetExponent_of_log2 .exact hlog (by omega : -1074 ≤ (e + k) + (i : ℤ))
  rw [hmantissa', hexponent', dif_neg (by omega)]
  exact ⟨_, _, _, rfl, hlow', hhigh', by omega, by omega⟩

theorem shiftLeft_ne_zero {m : ℕ} (hm : m ≠ 0) (k : ℕ) : m <<< k ≠ 0 := by
  rw [Nat.shiftLeft_eq]
  exact Nat.mul_ne_zero hm (Nat.two_pow_pos k).ne'

theorem log2_shiftLeft {m : ℕ} (hm : m ≠ 0) (k : ℕ) : (m <<< k).log2 = m.log2 + k := by
  rw [Nat.log2_eq_iff (shiftLeft_ne_zero hm k), Nat.shiftLeft_eq, Nat.add_right_comm, Nat.pow_add,
    Nat.pow_add _ _ k]
  exact ⟨Nat.mul_le_mul_right _ (Nat.log2_self_le hm),
    Nat.mul_lt_mul_of_pos_right Nat.lt_log2_self (Nat.two_pow_pos k)⟩

/-- Numbers that are to be rounded to more bits than they have are padded with zeros. -/
theorem normal_round (s : Sign) {m : ℕ} {e : ℤ} (hm : 0 < m) (he : -1021 ≤ totalExponent m e) :
    Normal s (totalExponent m e - 53) (totalExponent m e - 52) (round Format.binary64 s m e) := by
  have htotal : totalExponent m e = m.log2 + 1 + e := rfl
  have htarget : Format.binary64.targetExponent (totalExponent m e) = totalExponent m e - 53 := by
    show max (totalExponent m e - 53) (-1074) = _
    omega
  unfold UnpackedFloat.round decreaseExponent
  simp only [htarget]
  generalize hk : (e - (totalExponent m e - 53)).toNat = k
  have hm0 : m ≠ 0 := by omega
  have hlog := log2_shiftLeft hm0 k
  have hsame : totalExponent (m <<< k) (e - k) = totalExponent m e := by
    show ((m <<< k).log2 : ℤ) + 1 + (e - k) = _
    omega
  have hfull : 2 ^ 52 ≤ m <<< k := by
    rw [← Nat.le_log2 (shiftLeft_ne_zero hm0 k), hlog]
    omega
  rw [← hsame]
  exact normal_roundWithAccuracy s .exact hfull (by rw [hsame]; exact he)

namespace Normal

variable {s : Sign} {low high low' high' : ℤ} {x : UnpackedFloat}

theorem mono (h : Normal s low high x) (hlow : low' ≤ low) (hhigh : high ≤ high') :
    Normal s low' high' x := by
  obtain ⟨m, e, hm, rfl, hfull, hlt, he, he'⟩ := h
  exact ⟨m, e, hm, rfl, hfull, hlt, by omega, by omega⟩

/-- A number with a full mantissa and an exponent in range is what it is put together from. -/
theorem unpack_pack (h : Normal s low high x) (hlow : -1074 ≤ low) (hhigh : high ≤ 970) :
    (Float.Model.pack x).unpack = x := by
  obtain ⟨m, e, hm, rfl, hfull, hlt, he, he'⟩ := h
  exact unpack_pack_of_canonical ⟨hlt, by omega, .inl hfull⟩ (by omega)

end Normal

/-! ### Signs of results -/

theorem sign?_roundWithAccuracy (s : Sign) (m : ℕ) (e : ℤ) (accuracy : Accuracy) :
    sign? (roundWithAccuracy Format.binary64 s m e accuracy) = some s := by
  unfold roundWithAccuracy
  dsimp only
  split <;> rfl

theorem isSome_sign?_normalize (m : ℤ) (e : ℤ) (s : Sign) :
    (sign? (normalize Format.binary64 m e s)).isSome := by
  unfold UnpackedFloat.normalize UnpackedFloat.round
  dsimp only
  split
  · rw [sign?_roundWithAccuracy]
    rfl
  · rfl
  · rw [sign?_roundWithAccuracy]
    rfl

/-- A number other than zero that is neither infinite nor undefined. -/
def Regular (x : UnpackedFloat) : Prop := ∃ s m e hm, x = .finite s m e hm

theorem Normal.regular {s : Sign} {low high : ℤ} {x : UnpackedFloat} (h : Normal s low high x) :
    Regular x := by
  obtain ⟨m, e, hm, rfl, -⟩ := h
  exact ⟨s, m, e, hm, rfl⟩

section Operations

variable {x y : UnpackedFloat}

theorem isSome_sign?_sub (hx : x.isFinite) (hy : y.isFinite) :
    (sign? (UnpackedFloat.sub Format.binary64 x y)).isSome := by
  rcases x with s | _ | s | ⟨s, m, e, hm⟩ <;> rcases y with s' | _ | s' | ⟨s', m', e', hm'⟩ <;>
    first
    | contradiction
    | rfl
    | exact isSome_sign?_normalize ..
    | skip
  case zero.zero =>
    unfold UnpackedFloat.sub
    dsimp only
    split <;> rfl

theorem isSome_sign?_add (hx : x.isFinite) (hy : (sign? y).isSome) :
    (sign? (UnpackedFloat.add Format.binary64 x y)).isSome := by
  rcases x with s | _ | s | ⟨s, m, e, hm⟩ <;> rcases y with s' | _ | s' | ⟨s', m', e', hm'⟩ <;>
    first
    | contradiction
    | rfl
    | exact isSome_sign?_normalize ..
    | skip
  case zero.zero =>
    unfold UnpackedFloat.add
    dsimp only
    split <;> rfl

theorem isSome_sign?_mul (hx : Regular x) (hy : (sign? y).isSome) :
    (sign? (UnpackedFloat.mul Format.binary64 x y)).isSome := by
  obtain ⟨s, m, e, hm, rfl⟩ := hx
  rcases y with s' | _ | s' | ⟨s', m', e', hm'⟩
  · rfl
  · contradiction
  · rfl
  · exact Option.isSome_iff_exists.mpr ⟨_, sign?_roundWithAccuracy ..⟩

theorem isSome_sign?_mul' (hx : (sign? x).isSome) (hy : Regular y) :
    (sign? (UnpackedFloat.mul Format.binary64 x y)).isSome := by
  obtain ⟨s, m, e, hm, rfl⟩ := hy
  rcases x with s' | _ | s' | ⟨s', m', e', hm'⟩
  · rfl
  · contradiction
  · rfl
  · exact Option.isSome_iff_exists.mpr ⟨_, sign?_roundWithAccuracy ..⟩

theorem sign?_div (hy : Regular y) {s s' : Sign} (hx : sign? x = some s) (hs : sign? y = some s') :
    sign? (UnpackedFloat.div Format.binary64 x y) = some (s / s') := by
  obtain ⟨s', m', e', hm', rfl⟩ := hy
  rcases x with s | _ | s | ⟨s, m, e, hm⟩ <;> cases hx <;> cases hs
  · rfl
  · rfl
  · exact sign?_roundWithAccuracy ..

end Operations

/-- The product of numbers with full mantissas has a full mantissa, unless it is too small. -/
theorem Normal.mul {s s' : Sign} {low high low' high' : ℤ} {x y : UnpackedFloat}
    (hx : Normal s low high x) (hy : Normal s' low' high' y) (hlow : -1126 ≤ low + low') :
    Normal (s * s') (low + low' + 52) (high + high' + 54) (UnpackedFloat.mul Format.binary64 x y) := by
  obtain ⟨m, e, hm, rfl, hfull, hlt, he, he'⟩ := hx
  obtain ⟨m', e', hm', rfl, hfull', hlt', hee, hee'⟩ := hy
  have hge : 2 ^ 52 * 2 ^ 52 ≤ m * m' := Nat.mul_le_mul hfull hfull'
  have hltm : m * m' < 2 ^ 53 * 2 ^ 53 := Nat.mul_lt_mul'' hlt hlt'
  have hne : m * m' ≠ 0 := (Nat.mul_pos hm hm').ne'
  have hlog : 104 ≤ (m * m').log2 := (Nat.le_log2 hne).mpr hge
  have hlog' : (m * m').log2 < 106 := (Nat.log2_lt hne).mpr hltm
  have htotal : totalExponent (m * m') (e + e') = (m * m').log2 + 1 + (e + e') := rfl
  have hround := normal_roundWithAccuracy (s * s') .exact (hge.trans' (by decide)) (e := e + e') (by omega)
  exact hround.mono (by omega) (by omega)

/-! ### Counts -/

theorem normal_normalize {m : ℤ} {e : ℤ} (s : Sign) (hm : 0 < m) (he : -1021 ≤ totalExponent m.toNat e) :
    Normal .positive (totalExponent m.toNat e - 53) (totalExponent m.toNat e - 52)
      (normalize Format.binary64 m e s) := by
  have hnormalize : normalize Format.binary64 m e s = round Format.binary64 .positive m.toNat e := by
    unfold UnpackedFloat.normalize
    rw [compare_gt_iff_gt.mpr hm]
  rw [hnormalize]
  exact normal_round .positive (by omega) he

theorem parts_one : parts 1.0 = .finite .positive (2 ^ 52) (-52) (Nat.two_pow_pos 52) := by rfl

theorem normal_one : Normal .positive (-52) (-52) (parts 1.0) :=
  ⟨_, _, _, parts_one, le_refl _, by decide, le_refl _, le_refl _⟩

/-- A count of 53 bits or less is exact. -/
theorem normal_toFloat {n : ℕ} (hpos : 0 < n) (hlt : n < 2 ^ 53) :
    Normal .positive (-52) 1 (parts n.toUInt64.toFloat) := by
  have hlog : n.log2 < 53 := (Nat.log2_lt hpos.ne').mpr hlt
  have htoNat : n.toUInt64.toNat = n := UInt64.toNat_ofNat_of_lt (hlt.trans (by decide))
  have hcount : Normal .positive (-52) 1 (normalize Format.binary64 n.toUInt64.toNat 0 .positive) := by
    rw [htoNat]
    have htotal : totalExponent n 0 = n.log2 + 1 + 0 := rfl
    refine (normal_normalize .positive (by omega) ?_).mono ?_ ?_ <;> rw [Int.toNat_natCast] <;> omega
  have hparts : parts n.toUInt64.toFloat = normalize Format.binary64 n.toUInt64.toNat 0 .positive :=
    hcount.unpack_pack (by decide) (by decide)
  rw [hparts]
  exact hcount

/-- It is multiplied by one. -/
theorem normal_toFloat_mul_one {n : ℕ} (hpos : 0 < n) (hlt : n < 2 ^ 53) :
    Normal .positive (-52) 12 (parts (n.toUInt64.toFloat * 1.0)) := by
  have hproduct := (normal_toFloat hpos hlt).mul normal_one (by decide)
  have hvalue : parts (n.toUInt64.toFloat * 1.0) = _ := hproduct.unpack_pack (by decide) (by decide)
  rw [hvalue]
  exact hproduct.mono (by decide) (by decide)

/-- Any other count is rounded from twice as many bits. -/
theorem ofScientific_eq {n : ℕ} (hpos : 0 < n) : UnpackedFloat.ofScientific Format.binary64 n 0 =
    roundWithAccuracy Format.binary64 .positive (n <<< 53 * 1) (-53 + 0) .exact := by
  have hbits : (2 ^ Format.binary64.exponentBits : ℤ) = 2048 := rfl
  unfold UnpackedFloat.ofScientific
  rw [dif_neg hpos.ne', if_neg (by decide), if_neg (by omega), if_pos (by decide)]
  rfl

theorem normal_ofScientific {n : ℕ} (hpos : 0 < n) (hlt : n < 2 ^ 64) :
    Normal .positive (-52) 12 (UnpackedFloat.ofScientific Format.binary64 n 0) := by
  have hlog : n.log2 < 64 := (Nat.log2_lt hpos.ne').mpr hlt
  have hshift : (n <<< 53).log2 = n.log2 + 53 := log2_shiftLeft hpos.ne' 53
  have htotal : totalExponent (n <<< 53 * 1) (-53 + 0) = n.log2 + 1 := by
    unfold totalExponent
    rw [Nat.mul_one, hshift]
    omega
  have hfull : 2 ^ 52 ≤ n <<< 53 * 1 := by
    rw [Nat.mul_one, Nat.shiftLeft_eq]
    omega
  rw [ofScientific_eq hpos]
  exact (normal_roundWithAccuracy .positive .exact hfull (by omega)).mono (by omega) (by omega)

/-- A count that a document can give is a number with a full mantissa. -/
theorem normal_ofNat {n : ℕ} (hpos : 0 < n) (hlt : n < 2 ^ 64) :
    Normal .positive (-52) 12 (parts (Float.ofNat n)) := by
  have hofNat : Float.ofNat n = Float.ofScientific n false 0 := rfl
  rw [hofNat]
  unfold Float.ofScientific
  split
  · rename_i hsmall
    exact normal_toFloat_mul_one hpos hsmall.1
  · have hround := normal_ofScientific hpos hlt
    show Normal _ _ _ (Float.Model.pack (UnpackedFloat.ofScientific Format.binary64 n 0)).unpack
    rw [hround.unpack_pack (by decide) (by decide)]
    exact hround

/-! ### Fractions -/

/-- A number between zero and one has a negative exponent. -/
theorem parts_of_fraction {p : Float} (hpos : 0.0 < p) (hlt : p < 1.0) :
    ∃ m e hm, parts p = .finite .positive m e hm ∧ m < 2 ^ 53 ∧ e ≤ -53 := by
  obtain ⟨-, hp, hpos⟩ := lt_iff.mp hpos
  obtain ⟨-, -, hlt⟩ := lt_iff.mp hlt
  rw [rank_zero] at hpos
  rw [parts_one] at hlt
  rcases hparts : parts p with ⟨_ | _⟩ | _ | ⟨_ | _⟩ | ⟨_ | _, m, e, hm⟩ <;> rw [hparts] at hpos hlt <;>
    simp only [rank, Prod.Lex.toLex_lt_toLex] at hpos hlt
  case finite.positive =>
    obtain ⟨⟨hm', -, hfull⟩, -⟩ := canonical_of_parts hparts
    exact ⟨m, e, hm, rfl, hm', by omega⟩
  all_goals omega

/-- What a mantissa leaves of a power of two has nearly as many bits as the power. Only next to it can
most of them be lost, and there the exponent is known. -/
theorem log2_of_rest {m rest k : ℕ} (hm : 0 < m) (hm' : m < 2 ^ 53) (hk : 1 ≤ k)
    (h : 2 ^ 52 * 2 ^ k = m + rest) : rest ≠ 0 ∧ k ≤ rest.log2 + 1 ∧ rest.log2 ≤ 52 + k := by
  have htwo : 2 ^ 1 ≤ 2 ^ k := Nat.pow_le_pow_right (by decide) hk
  have hne : rest ≠ 0 := by omega
  have hhigh : rest.log2 < 53 + k := (Nat.log2_lt hne).mpr (by rw [Nat.pow_add]; omega)
  refine ⟨hne, ?_, by omega⟩
  rcases Nat.lt_or_ge k 2 with hk2 | hk2
  · omega
  · have hfour : 2 ^ 2 ≤ 2 ^ k := Nat.pow_le_pow_right (by decide) hk2
    have hhalf : 2 ^ (51 + k) ≤ rest := by
      rw [Nat.pow_add]
      omega
    have hlow := (Nat.le_log2 hne).mpr hhalf
    omega

/-- What is left of one is not too small, since a fraction has no more bits than one has. -/
theorem normal_one_sub {p : Float} (hpos : 0.0 < p) (hlt : p < 1.0) :
    Normal .positive (-105) (-51) (parts (1.0 - p)) := by
  obtain ⟨m, e, hm, hp, hm', he⟩ := parts_of_fraction hpos hlt
  obtain ⟨k, hk⟩ := Int.exists_eq_neg_ofNat (a := e + 52) (by omega)
  have htwo : 2 ^ 1 ≤ 2 ^ k := Nat.pow_le_pow_right (by decide) (by omega)
  obtain ⟨rest, hrest⟩ := Nat.exists_eq_add_of_le (m := m) (n := 2 ^ 52 * 2 ^ k) (by omega)
  obtain ⟨hne, hlow, hhigh⟩ := log2_of_rest hm hm' (by omega) hrest
  have hsub : UnpackedFloat.sub Format.binary64 (parts 1.0) (parts p) =
      normalize Format.binary64 rest e .positive := by
    have hmin : min (-52) e = e := by omega
    have hshift : (-52 - e).toNat = k := by omega
    have hdifference : ((2 ^ 52 * 2 ^ k : ℕ) : ℤ) - (m * 2 ^ 0 : ℕ) = rest := by omega
    rw [parts_one, hp]
    unfold UnpackedFloat.sub decreaseExponent
    simp only [hmin, hshift, Int.sub_self, Int.toNat_zero, Sign.apply, Nat.shiftLeft_eq, hdifference]
  have htotal : totalExponent rest e = rest.log2 + 1 + e := rfl
  have hnormal : Normal .positive (-105) (-51)
      (UnpackedFloat.sub Format.binary64 (parts 1.0) (parts p)) := by
    rw [hsub]
    refine (normal_normalize .positive (by omega) ?_).mono ?_ ?_ <;> rw [Int.toNat_natCast] <;> omega
  have hparts : parts (1.0 - p) = _ := hnormal.unpack_pack (by decide) (by decide)
  rw [hparts]
  exact hnormal

/-! ### Results that are defined -/

section Defined

variable {x y : Float}

theorem isFinite_of_unit (h : 0.0 ≤ x) (h' : x ≤ 1.0) : x.isFinite := by
  obtain ⟨-, hx, h⟩ := le_iff.mp h
  obtain ⟨-, -, h'⟩ := le_iff.mp h'
  rw [rank_zero] at h
  rw [parts_one] at h'
  show (parts x).isFinite = true
  rcases hparts : parts x with ⟨_ | _⟩ | _ | ⟨_ | _⟩ | ⟨_ | _, m, e, hm⟩ <;> rw [hparts] at h h' <;>
    simp only [rank, Prod.Lex.toLex_le_toLex] at h h'
  case notANumber => exact absurd (isNaN_iff.mpr hparts) hx
  case infinity.negative => omega
  case infinity.positive => omega
  all_goals rfl

theorem not_isNaN_of_isFinite (h : x.isFinite) : ¬x.isNaN := by
  have h : (parts x).isFinite := h
  rw [isNaN_iff]
  intro hx
  rw [hx] at h
  cases h

theorem regular_of_isFinite (h : x.isFinite) (hne : ¬(x == 0.0)) : Regular (parts x) := by
  have h : (parts x).isFinite := h
  have hne : ¬((parts x).compare (parts 0.0) == some .eq) := hne
  rcases hparts : parts x with s | _ | s | ⟨s, m, e, hm⟩ <;> rw [hparts] at h hne
  · cases h
  · cases h
  · exact absurd rfl hne
  · exact ⟨s, m, e, hm, rfl⟩

theorem regular_of_fraction (hpos : 0.0 < x) (hlt : x < 1.0) : Regular (parts x) := by
  obtain ⟨m, e, hm, hparts, -⟩ := parts_of_fraction hpos hlt
  exact ⟨_, m, e, hm, hparts⟩

/-- A number with a minus is less than zero, unless it is a zero itself. -/
theorem sign?_of_regular (h : Regular (parts x)) :
    sign? (parts x) = some (if x < 0.0 then .negative else .positive) := by
  obtain ⟨s, m, e, hm, hparts⟩ := h
  have hx : ¬x.isNaN := not_isNaN_iff.mpr (by rw [hparts]; rfl)
  rw [hparts]
  cases s with
  | negative =>
    rw [if_pos]
    · rfl
    · refine lt_iff.mpr ⟨hx, by decide, ?_⟩
      rw [hparts, rank_zero]
      exact Prod.Lex.toLex_lt_toLex.mpr (.inl (by decide : (-1 : ℤ) < 0))
  | positive =>
    rw [if_neg]
    · rfl
    · intro hlt
      obtain ⟨-, -, hlt⟩ := lt_iff.mp hlt
      rw [hparts, rank_zero] at hlt
      simp only [rank, Prod.Lex.toLex_lt_toLex] at hlt
      omega

theorem sign?_parts_sub : sign? (parts (x - y)) =
    sign? (UnpackedFloat.sub Format.binary64 (parts x) (parts y)) := sign?_unpack_pack _

theorem sign?_parts_add : sign? (parts (x + y)) =
    sign? (UnpackedFloat.add Format.binary64 (parts x) (parts y)) := sign?_unpack_pack _

theorem sign?_parts_mul : sign? (parts (x * y)) =
    sign? (UnpackedFloat.mul Format.binary64 (parts x) (parts y)) := sign?_unpack_pack _

theorem sign?_parts_div : sign? (parts (x / y)) =
    sign? (UnpackedFloat.div Format.binary64 (parts x) (parts y)) := sign?_unpack_pack _

theorem not_isNaN_sub (hx : x.isFinite) (hy : y.isFinite) : ¬(x - y).isNaN := by
  rw [not_isNaN_iff, sign?_parts_sub]
  exact isSome_sign?_sub hx hy

theorem not_isNaN_add (hx : x.isFinite) (hy : ¬y.isNaN) : ¬(x + y).isNaN := by
  rw [not_isNaN_iff, sign?_parts_add]
  exact isSome_sign?_add hx (not_isNaN_iff.mp hy)

/-- Only a zero times an infinite number is undefined. -/
theorem not_isNaN_mul (hx : Regular (parts x)) (hy : ¬y.isNaN) : ¬(x * y).isNaN := by
  rw [not_isNaN_iff, sign?_parts_mul]
  exact isSome_sign?_mul hx (not_isNaN_iff.mp hy)

theorem not_isNaN_mul' (hx : ¬x.isNaN) (hy : Regular (parts y)) : ¬(x * y).isNaN := by
  rw [not_isNaN_iff, sign?_parts_mul]
  exact isSome_sign?_mul' (not_isNaN_iff.mp hx) hy

theorem not_isNaN_div (hx : ¬x.isNaN) (hy : Regular (parts y)) : ¬(x / y).isNaN := by
  obtain ⟨s, hs⟩ := Option.isSome_iff_exists.mp (not_isNaN_iff.mp hx)
  rw [not_isNaN_iff, sign?_parts_div, sign?_div hy hs (sign?_of_regular hy)]
  rfl

/-- A quotient of numbers with the same sign is not less than zero. -/
theorem nonneg_div (hx : Regular (parts x)) (hy : Regular (parts y)) (h : x < 0.0 ↔ y < 0.0) :
    0.0 ≤ x / y := by
  refine nonneg_of_sign? ?_
  rw [sign?_parts_div, sign?_div hy (sign?_of_regular hx) (sign?_of_regular hy)]
  simp only [h]
  split <;> rfl

/-- A count that a document can give is a number, and it is zero only if the count is. -/
theorem regular_ofNat {n : ℕ} (hpos : 0 < n) (hlt : n < 2 ^ 64) : Regular (parts (Float.ofNat n)) :=
  (normal_ofNat hpos hlt).regular

theorem not_isNaN_of_regular (h : Regular (parts x)) : ¬x.isNaN := by
  rw [not_isNaN_iff, sign?_of_regular h]
  rfl

theorem not_isNaN_ofNat {n : ℕ} (hlt : n < 2 ^ 64) : ¬(Float.ofNat n).isNaN := by
  rcases Nat.eq_zero_or_pos n with rfl | hpos
  · decide
  · exact not_isNaN_of_regular (regular_ofNat hpos hlt)

theorem not_isNaN_sqrt (h : 0.0 ≤ x) : ¬x.sqrt.isNaN := by
  obtain ⟨-, hx, h⟩ := le_iff.mp h
  rw [rank_zero] at h
  rw [not_isNaN_iff]
  show (sign? (Float.Model.pack (UnpackedFloat.sqrt Format.binary64 (parts x))).unpack).isSome
  rw [sign?_unpack_pack]
  rcases hparts : parts x with ⟨_ | _⟩ | _ | ⟨_ | _⟩ | ⟨_ | _, m, e, hm⟩ <;> rw [hparts] at h <;>
    simp only [rank, Prod.Lex.toLex_le_toLex] at h
  case notANumber => exact absurd (isNaN_iff.mpr hparts) hx
  case infinity.negative => omega
  case finite.negative => omega
  case finite.positive => exact Option.isSome_iff_exists.mpr ⟨_, sign?_roundWithAccuracy ..⟩
  all_goals rfl

/-- The square of what a fraction leaves of one is not zero, however close the fraction is. -/
theorem regular_square_one_sub (hpos : 0.0 < x) (hlt : x < 1.0) :
    Regular (parts ((1.0 - x) * (1.0 - x))) := by
  have hleft := normal_one_sub hpos hlt
  have hsquare := hleft.mul hleft (by decide)
  have hparts : parts ((1.0 - x) * (1.0 - x)) = _ := hsquare.unpack_pack (by decide) (by decide)
  rw [hparts]
  exact hsquare.regular

end Defined

end Regimen.Binary64
