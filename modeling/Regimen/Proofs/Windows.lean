import Regimen.Proofs.Interpolation
import Regimen.Proofs.Monotonicity

/-!
# The ends of a window

The part of the way that is done is a rounded quotient of rounded counts, and it is compared with zero and
with one. Near the greatest count, many counts become the same number; and a window may end beyond it. Still
**a schedule has its initial value up to the start of its window, and its final value from the end on**
(`Schedule.valueAt_ends`), bit for bit, whatever the ends are: they need not even be numbers.

Between the start and the end, the part that is done grows (`Schedule.progressAt_mono`).
-/

namespace Regimen

open Binary64

/-! ### Bounds in order -/

section Clamped

variable {least greatest x y : Float}

theorem value_clamped (h : least ≤ greatest) (hx : ¬x.isNaN) :
    value (parts (clamped least greatest x)) =
      max (value (parts least)) (min (value (parts x)) (value (parts greatest))) := by
  obtain ⟨hleast, hgreatest, hle⟩ := le_iff_value.mp h
  unfold clamped
  by_cases hlow : x < least
  · have hlow' := value_lt hlow
    have hhigh : ¬greatest < least := fun hlt => hle.not_gt (value_lt hlt)
    simp [hlow, hhigh, hlow'.le]
  · have hlow' := value_le (le_of_not_lt hx hleast hlow)
    by_cases hhigh : greatest < x
    · have hhigh' := value_lt hhigh
      simp [hlow, hhigh, hhigh'.le, hle]
    · have hhigh' := value_le (le_of_not_lt hgreatest hx hhigh)
      simp [hlow, hhigh, hlow', hhigh']

theorem clamped_mono (h : least ≤ greatest) (hxy : x ≤ y) :
    clamped least greatest x ≤ clamped least greatest y := by
  obtain ⟨hx, hy, hxy⟩ := le_iff_value.mp hxy
  apply le_of_value (clamped_bounds h hx).1 (clamped_bounds h hy).1
  rw [value_clamped h hx, value_clamped h hy]
  exact max_le_max_left _ (min_le_min_right _ hxy)

end Clamped

/-! ### The part that is done -/

section Progress

variable {power : Float → Float → Float} {step step' total : Nat}

theorem lt_of_le_maxCount {n : Nat} (h : n ≤ maxCount) : n < 2 ^ 64 := Nat.lt_succ_of_le h

theorem ofNat_pos {n : Nat} (hpos : 0 < n) (h : n ≤ maxCount) : 0.0 < Float.ofNat n :=
  lt_of_lt_of_le (by decide : 0.0 < Float.ofNat 1) (ofNat_le hpos (lt_of_le_maxCount h))

theorem progressIn_of_pos (htotal : 0 < total) : progressIn (.withPower power) step total =
    clamped 0.0 1.0 (Float.ofNat step / Float.ofNat total) := by
  rw [progressIn, if_neg htotal.ne']
  rfl

theorem progressIn_mono (h : step ≤ step') (hstep : step' ≤ maxCount) (htotal : total ≤ maxCount) :
    progressIn (.withPower power) step total ≤ progressIn (.withPower power) step' total := by
  rcases Nat.eq_zero_or_pos total with rfl | hpos
  · exact (by decide : 1.0 ≤ 1.0)
  · rw [progressIn_of_pos hpos, progressIn_of_pos hpos]
    apply clamped_mono (by decide)
    apply div_le_div_right
    · exact isFinite_ofNat (lt_of_le_maxCount (h.trans hstep))
    · exact isFinite_ofNat (lt_of_le_maxCount hstep)
    · exact regular_ofNat hpos (lt_of_le_maxCount htotal)
    · exact ofNat_pos hpos htotal
    · exact ofNat_le h (lt_of_le_maxCount hstep)

/-- Before the first step, nothing is done. -/
theorem progressIn_zero (hpos : 0 < total) (htotal : total ≤ maxCount) :
    progressIn (.withPower power) 0 total ≤ 0.0 := by
  have htotal := regular_ofNat hpos (lt_of_le_maxCount htotal)
  have hquotient : ¬(Float.ofNat 0 / Float.ofNat total).isNaN := not_isNaN_div (by decide) htotal
  have hvalue : value (parts (Float.ofNat 0 / Float.ofNat total)) = 0 := by
    rw [value_div rfl htotal]
    exact (congrArg roundedValue (zero_div _)).trans roundedValue_zero
  have hunit : 0.0 ≤ 1.0 := by decide
  rw [progressIn_of_pos hpos]
  apply le_of_value (clamped_bounds hunit hquotient).1 (by decide)
  simp [value_clamped hunit hquotient, hvalue]

/-- After all steps, everything is done. -/
theorem one_le_progressIn (h : total ≤ step) (hstep : step ≤ maxCount) :
    1.0 ≤ progressIn (.withPower power) step total := by
  rcases Nat.eq_zero_or_pos total with rfl | hpos
  · exact (by decide : 1.0 ≤ 1.0)
  have htotal := regular_ofNat hpos (lt_of_le_maxCount (h.trans hstep))
  have hquotient : 1.0 ≤ Float.ofNat step / Float.ofNat total := by
    apply one_le_div (isFinite_ofNat (lt_of_le_maxCount hstep)) htotal
    have hlt : 0 < value (parts (Float.ofNat total)) := value_zero ▸ value_lt (ofNat_pos hpos (h.trans hstep))
    exact (one_le_div₀ hlt).mpr (value_le (ofNat_le h (lt_of_le_maxCount hstep)))
  rw [progressIn_of_pos hpos]
  exact le_trans (by decide : 1.0 ≤ clamped 0.0 1.0 1.0) (clamped_mono (by decide) hquotient)

end Progress

namespace Schedule

variable {power : Float → Float → Float} {curve : Curve} {initial final : Float}
  {window : Option Window} {step step' total : Nat}

/-- The part that is done never shrinks. -/
theorem progressAt_mono (hw : ∀ w ∈ window, 0 < w.length ∧ w.length ≤ maxCount) (h : step ≤ step')
    (hstep : step' ≤ maxCount) (htotal : total ≤ maxCount) :
    progressAt (.withPower power) window step total ≤ progressAt (.withPower power) window step' total := by
  cases window with
  | none => exact progressIn_mono h hstep htotal
  | some w =>
    have hstep : step' - w.start ≤ maxCount := (Nat.sub_le _ _).trans hstep
    exact progressIn_mono (Nat.sub_le_sub_right h _) hstep (hw w rfl).2

theorem valueIn_of_progressAt_le (h : progressAt (.withPower power) window step total ≤ 0.0) :
    (curved curve initial final window).valueIn (.withPower power) step total = initial := by
  simp [valueIn, h]

theorem valueIn_of_le_progressAt (h : 1.0 ≤ progressAt (.withPower power) window step total) :
    (curved curve initial final window).valueIn (.withPower power) step total = final := by
  have hpos : ¬progressAt (.withPower power) window step total ≤ 0.0 := by
    intro hle
    exact absurd (le_trans h hle) (by decide)
  simp [valueIn, h, hpos]

theorem valueAt_eq (s : Schedule) :
    s.valueAt step total = s.valueIn (.withPower Float.pow) step total := rfl

/-- **A schedule leads exactly from its initial to its final value.** Without a window, it begins before the
first step of training and ends when all steps are done, at once where there are none. A window is hit
exactly, however long the training is, and however it lies among the counts: the steps since its start are
counted as integers, even where it ends beyond the greatest count. -/
theorem valueAt_ends (curve : Curve) (initial final : Float) (hstep : step ≤ maxCount)
    (htotal : total ≤ maxCount) :
    ((step = 0 → 1 ≤ total → (curved curve initial final none).valueAt step total = initial) ∧
      (total ≤ step → (curved curve initial final none).valueAt step total = final)) ∧
    ∀ w : Window, 1 ≤ w.length → w.length ≤ maxCount →
      (∀ total', (curved curve initial final (some w)).valueAt step total' =
        (curved curve initial final (some w)).valueAt step total) ∧
      (step ≤ w.start → (curved curve initial final (some w)).valueAt step total = initial) ∧
      ((w.length : ℤ) ≤ step - w.start →
        (curved curve initial final (some w)).valueAt step total = final) := by
  simp only [valueAt_eq]
  refine ⟨⟨?_, ?_⟩, fun w hpos hlength => ⟨fun _ => rfl, ?_, ?_⟩⟩
  · rintro rfl hpos
    exact valueIn_of_progressAt_le (progressIn_zero hpos htotal)
  · intro hdone
    exact valueIn_of_le_progressAt (one_le_progressIn hdone hstep)
  · intro hbefore
    apply valueIn_of_progressAt_le
    rw [progressAt, Nat.sub_eq_zero_of_le hbefore]
    exact progressIn_zero hpos hlength
  · intro hdone
    apply valueIn_of_le_progressAt
    exact one_le_progressIn (by omega) ((Nat.sub_le _ _).trans hstep)

/-- A training of as many steps as there are counts, a window that ends with the last of them, and one that
begins next to it and never ends. -/
theorem valueAt_ends_greatest :
    (curved .polynomial 1.0 0.5 none).valueAt 0 maxCount = 1.0 ∧
      (curved .linear 1.0 0.5 (some ⟨maxCount - 3, 3⟩)).valueAt maxCount 0 = 0.5 ∧
      (curved .linear 1.0 0.5 (some ⟨maxCount - 1, 2⟩)).valueAt (maxCount - 1) 0 = 1.0 ∧
      (curved .linear 1.0 0.5 (some ⟨maxCount - 1, 2⟩)).valueAt maxCount 0 = 0.75 := by
  have hzero : 0 ≤ maxCount := Nat.zero_le _
  have hlast : maxCount ≤ maxCount := Nat.le_refl _
  have hwhole := (valueAt_ends .polynomial 1.0 0.5 hzero hlast).1
  have hwindow := (valueAt_ends .linear 1.0 0.5 hlast hzero).2 ⟨maxCount - 3, 3⟩ (by decide) (by decide)
  have hendless := (valueAt_ends .linear 1.0 0.5 (Nat.sub_le maxCount 1) hzero).2 ⟨maxCount - 1, 2⟩
    (by decide) (by decide)
  refine ⟨hwhole.1 rfl (by decide), hwindow.2.2 (by decide), hendless.2.1 (by decide), ?_⟩
  decide +kernel

end Schedule

end Regimen
