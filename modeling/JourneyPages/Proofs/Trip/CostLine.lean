import JourneyPages.Proofs.Number.Comparison
import JourneyPages.Trip.CostLine

/-!
Cost lines keep the order of costs. The sum and the product that a line is computed with are
rounded, and so is the result, but rounding never turns an order around.
-/
namespace JourneyPages

open Number

theorem nearestNat_mul_zpow (tie : Tie) (m : ℕ) (e : ℤ) :
    nearestNat tie (m * 2 ^ e) = Binary64.scaled tie m e 0 := by
  have hquot : (m : ℚ) * 2 ^ e = (m * 2 ^ e.toNat : ℕ) / (2 ^ (-e).toNat : ℕ) := by
    rw [eq_div_iff (by positivity), Nat.cast_pow, Nat.cast_ofNat, mul_assoc, ← zpow_natCast,
      ← zpow_add₀ (by norm_num)]
    push_cast
    rw [← zpow_natCast]
    congr 2
    omega
  rw [hquot, nearestNat_div _ _ (by positivity)]
  simp [Binary64.scaled, Binary64.quotient]

namespace Cost

theorem saturate_mono {m n : Int} (h : m ≤ n) : saturate m ≤ saturate n := by
  simp only [le_iff, saturate_value]
  omega

/-- A double becomes the cost nearest to the number it stands for. -/
theorem ofFloat_eq (x : Float) :
    ofFloat x = saturate (nearestInt (Binary64.ofFloat x).value) := by
  unfold ofFloat
  cases Binary64.ofFloat x with
  | nan => decide
  | infinite s =>
    have hlarge : (2147483648 : ℕ) ≤ nearestNat .up overflow := by
      have hle : ((2147483648 : ℕ) : ℚ) ≤ overflow := by
        calc ((2147483648 : ℕ) : ℚ) = 2 ^ (31 : ℤ) := by norm_num
          _ ≤ overflow := zpow_le_zpow_right₀ (by norm_num) (by norm_num)
      simpa only [nearestNat_natCast] using nearestNat_mono .up (Nat.cast_nonneg _) hle
    simp only [Binary64.value, nearestInt_signed s Binary64.overflow_pos.le]
    ext
    cases s
    · simp only [Bool.false_eq_true, if_false, signed_false, saturate_value]
      omega
    · simp only [if_true, signed_true, saturate_value]
      omega
  | finite s m e =>
    simp only [Binary64.value]
    rw [nearestInt_signed s (by positivity), nearestNat_mul_zpow, signed]

theorem ofFloat_mono {x y : Float} (h : (Binary64.ofFloat x).value ≤ (Binary64.ofFloat y).value) :
    ofFloat x ≤ ofFloat y := by
  rw [ofFloat_eq, ofFloat_eq]
  exact saturate_mono (nearestInt_mono h)

theorem value_toFloat (c : Cost) :
    c.toFloat.isFinite = true ∧ (Binary64.ofFloat c.toFloat).value = c.value :=
  Binary64.value_floatOfInt (by have := c.inRange; omega)

end Cost

theorem isMeasure_iff {x : Float} :
    isMeasure x = true ↔ x.isFinite = true ∧ 0 ≤ (Binary64.ofFloat x).value := by
  have hzero : Binary64.ofFloat 0.0 ≠ .nan := Binary64.ne_nan_of_isFinite (by decide)
  simp only [isMeasure, Bool.and_eq_true, Bool.not_eq_true', decide_eq_false_iff_not]
  refine and_congr_right fun hfinite => ?_
  rw [Binary64.lt_iff_value_lt (Binary64.ne_nan_of_isFinite hfinite) hzero,
    Binary64.value_ofFloat_zero, not_lt]

/-- A dearer cost is not given a lower value. -/
theorem CostLine.apply_mono (f : CostLine) {x y : Cost} (h : x ≤ y) : f.apply x ≤ f.apply y := by
  obtain ⟨hx, hvx⟩ := x.value_toFloat
  obtain ⟨hy, hvy⟩ := y.value_toFloat
  obtain ⟨hb, hpos⟩ := isMeasure_iff.mp f.coefficient_isMeasure
  have horder : (Binary64.ofFloat x.toFloat).value ≤ (Binary64.ofFloat y.toFloat).value := by
    rw [hvx, hvy]
    exact_mod_cast h
  apply Cost.ofFloat_mono
  exact Binary64.value_add_mono f.constant.value_toFloat.1 (Binary64.value_mul hb hx).1
    (Binary64.value_mul hb hy).1 (Binary64.value_mul_mono hb hpos hx hy horder)

end JourneyPages
