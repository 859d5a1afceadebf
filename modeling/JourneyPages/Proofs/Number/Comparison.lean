import JourneyPages.Proofs.Number.Arithmetic

/-!
Comparison of doubles is comparison of the numbers that they stand for, and false where one is not a
number. With it, what a factor above one does: it never makes a number that is not negative less,
it always makes a number below minus one less, and an infinite one leaves the range of doubles.
-/
namespace JourneyPages.Number.Binary64

open Float.Model (Format UnpackedFloat)
open Float.Model.UnpackedFloat

/-! Significands -/

/-- Between a proper significand and a number above it with one, there is the next significand. -/
theorem Proper.succ_le_of_exponent_lt {m n : Nat} {e t : Int} (h : Proper m e) (h' : Proper n t)
    (hlt : e < t) : ((m + 1 : Nat) : ℚ) * 2 ^ e ≤ n * 2 ^ t := by
  have hm : ((m + 1 : Nat) : ℚ) ≤ 2 ^ (53 : ℤ) := by exact_mod_cast h.lt
  have hn : (2 : ℚ) ^ (52 : ℤ) ≤ n := by
    rcases h'.normal with hn | hn
    · exact_mod_cast hn
    · have := h.le
      omega
  calc ((m + 1 : Nat) : ℚ) * 2 ^ e ≤ 2 ^ (53 : ℤ) * 2 ^ e :=
        mul_le_mul_of_nonneg_right hm (by positivity)
    _ = 2 ^ (53 + e) := (zpow_add₀ (by norm_num) _ _).symm
    _ ≤ 2 ^ (52 + t) := zpow_le_zpow_right₀ (by norm_num) (by omega)
    _ = 2 ^ (52 : ℤ) * 2 ^ t := zpow_add₀ (by norm_num) _ _
    _ ≤ n * 2 ^ t := mul_le_mul_of_nonneg_right hn (by positivity)

theorem lt_succ_mul_zpow (m : Nat) (e : Int) : (m : ℚ) * 2 ^ e < ((m + 1 : Nat) : ℚ) * 2 ^ e :=
  mul_lt_mul_of_pos_right (by exact_mod_cast Nat.lt_succ_self m) (by positivity)

/-- Of proper significands the exponents are compared first. -/
theorem Proper.lt_iff {m n : Nat} {e t : Int} (h : Proper m e) (h' : Proper n t) :
    (m : ℚ) * 2 ^ e < n * 2 ^ t ↔ e < t ∨ e = t ∧ m < n := by
  have hpow : (0 : ℚ) < 2 ^ e := by positivity
  rcases lt_trichotomy e t with hlt | rfl | hgt
  · have hless := (lt_succ_mul_zpow m e).trans_le (h.succ_le_of_exponent_lt h' hlt)
    simp [hless, hlt]
  · rw [mul_lt_mul_iff_left₀ hpow]
    simp
  · have hmore := (lt_succ_mul_zpow n t).trans_le (h'.succ_le_of_exponent_lt h hgt)
    simp only [not_lt_of_gt hmore, not_lt_of_gt hgt, hgt.ne', false_and, or_self]

theorem Proper.succ_le {m n : Nat} {e t : Int} (h : Proper m e) (h' : Proper n t)
    (hlt : (m : ℚ) * 2 ^ e < n * 2 ^ t) : ((m + 1 : Nat) : ℚ) * 2 ^ e ≤ n * 2 ^ t := by
  rcases (h.lt_iff h').mp hlt with hexponent | ⟨rfl, hmantissa⟩
  · exact h.succ_le_of_exponent_lt h' hexponent
  · refine mul_le_mul_of_nonneg_right ?_ (by positivity)
    exact_mod_cast hmantissa

theorem Proper.compare_eq_lt_iff {m n : Nat} {e t : Int} (h : Proper m e) (h' : Proper n t) :
    (compare e t).then (compare m n) = .lt ↔ (m : ℚ) * 2 ^ e < n * 2 ^ t := by
  rw [h.lt_iff h', Ordering.then_eq_lt, compare_lt_iff_lt, compare_eq_iff_eq, compare_lt_iff_lt]

/-! Unpacked doubles -/

theorem lt_iff_compare {u v : Float.Model.UnpackedFloat} :
    u.lt v = true ↔ UnpackedFloat.compare u v = some .lt := by
  rw [UnpackedFloat.lt, beq_iff_eq]

/-- Comparing the other way round turns the result over. -/
theorem compare_swap : ∀ u v : Float.Model.UnpackedFloat,
    UnpackedFloat.compare v u = (UnpackedFloat.compare u v).map Ordering.swap
  | .notANumber, v => by cases v <;> rfl
  | u, .notANumber => by cases u <;> rfl
  | .infinity s, .infinity s' => by cases s <;> cases s' <;> rfl
  | .infinity s, .zero _ => by cases s <;> rfl
  | .infinity s, .finite .. => by cases s <;> rfl
  | .zero _, .infinity s => by cases s <;> rfl
  | .zero _, .zero _ => rfl
  | .zero _, .finite s _ _ _ => by cases s <;> rfl
  | .finite .., .infinity s => by cases s <;> rfl
  | .finite s _ _ _, .zero _ => by cases s <;> rfl
  | .finite s m e _, .finite s' n t _ => by
    have hswap : (compare t e).then (compare n m) = ((compare e t).then (compare m n)).swap := by
      rw [Ordering.swap_then, ← Std.OrientedCmp.eq_swap, ← Std.OrientedCmp.eq_swap]
    cases s <;> cases s' <;> simp [UnpackedFloat.compare, hswap]

theorem le_iff_not_lt {u v : Float.Model.UnpackedFloat} :
    u.le v = true ↔ UnpackedFloat.compare u v ≠ none ∧ ¬ v.lt u = true := by
  rw [UnpackedFloat.le, UnpackedFloat.lt, compare_swap u v]
  cases UnpackedFloat.compare u v with
  | none => simp
  | some o => cases o <;> simp

theorem ofUnpacked_eq_nan_iff {u : Float.Model.UnpackedFloat} :
    ofUnpacked u = .nan ↔ u = .notANumber := by
  cases u <;> simp [ofUnpacked]

theorem compare_eq_none_iff {u v : Float.Model.UnpackedFloat} :
    UnpackedFloat.compare u v = none ↔ ofUnpacked u = .nan ∨ ofUnpacked v = .nan := by
  rw [ofUnpacked_eq_nan_iff, ofUnpacked_eq_nan_iff]
  unfold UnpackedFloat.compare
  split <;> simp_all

/-- Doubles within the range are compared as the numbers that they stand for. -/
theorem lt_iff_of_canonical {u v : Float.Model.UnpackedFloat} (hu : Canonical u)
    (hv : Canonical v) : u.lt v = true ↔ value (ofUnpacked u) < value (ofUnpacked v) := by
  rw [lt_iff_compare]
  rcases hu.zero_or_finite with ⟨s, rfl⟩ | ⟨s, m, e, hm, rfl, hproper⟩
  · rcases hv.zero_or_finite with ⟨s', rfl⟩ | ⟨s', n, t, hn, rfl, -⟩
    · simp [UnpackedFloat.compare]
    · have hpos : (0 : ℚ) < n * 2 ^ t := by positivity
      rw [value_zero]
      cases s'
      · simpa [UnpackedFloat.compare, ofUnpacked, value, isNegative] using hpos.le
      · simpa [UnpackedFloat.compare, ofUnpacked, value, isNegative] using hpos
  · have hpos : (0 : ℚ) < m * 2 ^ e := by positivity
    rcases hv.zero_or_finite with ⟨s', rfl⟩ | ⟨s', n, t, hn, rfl, hproper'⟩
    · rw [value_zero]
      cases s
      · simpa [UnpackedFloat.compare, ofUnpacked, value, isNegative] using hpos
      · simpa [UnpackedFloat.compare, ofUnpacked, value, isNegative] using hpos.le
    · have hpos' : (0 : ℚ) < n * 2 ^ t := by positivity
      simp only [ofUnpacked, value]
      cases s <;> cases s' <;>
        simp only [UnpackedFloat.compare, isNegative, signed_false, signed_true,
          Option.some.injEq, reduceCtorEq, false_iff, true_iff, not_lt]
      case positive.positive => exact hproper.compare_eq_lt_iff hproper'
      case positive.negative => exact (neg_neg_of_pos hpos').le.trans hpos.le
      case negative.positive => exact (neg_neg_of_pos hpos).trans hpos'
      case negative.negative =>
        rw [neg_lt_neg_iff, ← hproper'.compare_eq_lt_iff hproper, Ordering.swap_then,
          ← Std.OrientedCmp.eq_swap, ← Std.OrientedCmp.eq_swap]

/-! Floats -/

variable {x y z : Float}

theorem lt_iff_unpack : x < y ↔ x.toModel.unpack.lt y.toModel.unpack = true := by
  change decide (x.toModel < y.toModel) = true ↔ _
  rw [decide_eq_true_iff]
  exact Iff.rfl

theorem ne_nan_of_lt (h : x < y) : ofFloat x ≠ .nan ∧ ofFloat y ≠ .nan := by
  rw [lt_iff_unpack, lt_iff_compare] at h
  rw [ofFloat_eq_ofUnpacked x, ofFloat_eq_ofUnpacked y]
  cases hx : x.toModel.unpack <;> cases hy : y.toModel.unpack <;>
    simp [hx, hy, UnpackedFloat.compare, ofUnpacked] at h ⊢

theorem infinite_lt_infinite_iff {s t : Bool} (hx : ofFloat x = .infinite s)
    (hy : ofFloat y = .infinite t) : x < y ↔ s = true ∧ t = false := by
  rw [lt_iff_unpack, unpack_of_infinite hx, unpack_of_infinite hy]
  cases s <;> cases t <;> decide

theorem infinite_lt_iff {s : Bool} (hx : ofFloat x = .infinite s) (hy : y.isFinite = true) :
    x < y ↔ s = true := by
  rw [lt_iff_unpack, lt_iff_compare, unpack_of_infinite hx]
  rcases (canonical_unpack hy).zero_or_finite with ⟨_, hv⟩ | ⟨_, _, _, _, hv, -⟩ <;>
    cases s <;> simp [hv, UnpackedFloat.compare]

theorem lt_infinite_iff {s : Bool} (hx : x.isFinite = true) (hy : ofFloat y = .infinite s) :
    x < y ↔ s = false := by
  rw [lt_iff_unpack, lt_iff_compare, unpack_of_infinite hy]
  rcases (canonical_unpack hx).zero_or_finite with ⟨_, hu⟩ | ⟨_, _, _, _, hu, -⟩ <;>
    cases s <;> simp [hu, UnpackedFloat.compare]

theorem infinite_or_finite (h : ofFloat x ≠ .nan) :
    (∃ s, ofFloat x = .infinite s) ∨ x.isFinite = true := by
  rcases infinite_or_isFinite h with ⟨hinf, -⟩ | ⟨hinf, -⟩ | hfinite
  · exact .inl ⟨_, hinf⟩
  · exact .inl ⟨_, hinf⟩
  · exact .inr hfinite

/-- Infinities are compared as the ends of the range. -/
theorem lt_iff_value_lt (hx : ofFloat x ≠ .nan) (hy : ofFloat y ≠ .nan) :
    x < y ↔ value (ofFloat x) < value (ofFloat y) := by
  have hpos := overflow_pos
  rcases infinite_or_finite hx with ⟨s, hinf⟩ | hfinite
  · rcases infinite_or_finite hy with ⟨t, hinf'⟩ | hfinite'
    · rw [infinite_lt_infinite_iff hinf hinf', hinf, hinf', value, value]
      cases s <;> cases t <;> simp <;> linarith
    · obtain ⟨hlow, hhigh⟩ := value_lt_overflow hfinite'
      rw [infinite_lt_iff hinf hfinite', hinf, value]
      cases s
      · simpa using hhigh.le
      · simpa using hlow
  · rcases infinite_or_finite hy with ⟨t, hinf'⟩ | hfinite'
    · obtain ⟨hlow, hhigh⟩ := value_lt_overflow hfinite
      rw [lt_infinite_iff hfinite hinf', hinf', value]
      cases t
      · simpa using hhigh
      · simpa using hlow.le
    · rw [lt_iff_unpack, ofFloat_eq_ofUnpacked x, ofFloat_eq_ofUnpacked y]
      exact lt_iff_of_canonical (canonical_unpack hfinite) (canonical_unpack hfinite')

theorem le_iff_unpack : x ≤ y ↔ x.toModel.unpack.le y.toModel.unpack = true := by
  change decide (x.toModel ≤ y.toModel) = true ↔ _
  rw [decide_eq_true_iff]
  exact Iff.rfl

/-- Of what is a number, one double is at most another if the other is not below it. -/
theorem le_iff_value_le : x ≤ y ↔ ofFloat x ≠ .nan ∧ ofFloat y ≠ .nan ∧
    value (ofFloat x) ≤ value (ofFloat y) := by
  have hnan : UnpackedFloat.compare x.toModel.unpack y.toModel.unpack ≠ none ↔
      ofFloat x ≠ .nan ∧ ofFloat y ≠ .nan := by
    rw [Ne, compare_eq_none_iff, not_or, ofFloat_eq_ofUnpacked x, ofFloat_eq_ofUnpacked y]
  rw [le_iff_unpack, le_iff_not_lt, hnan, and_assoc]
  refine and_congr_right fun hx => and_congr_right fun hy => ?_
  rw [← lt_iff_unpack, lt_iff_value_lt hy hx, not_lt]

theorem ne_nan_of_isFinite (h : x.isFinite = true) : ofFloat x ≠ .nan := by
  obtain ⟨s, m, e, hread⟩ := isFinite_iff.mp h
  simp [hread]

theorem lt_of_lt_of_value_le (h : x < y) (hz : z.isFinite = true)
    (hle : value (ofFloat y) ≤ value (ofFloat z)) : x < z := by
  obtain ⟨hx, hy⟩ := ne_nan_of_lt h
  rw [lt_iff_value_lt hx hy] at h
  exact (lt_iff_value_lt hx (ne_nan_of_isFinite hz)).mpr (h.trans_le hle)

protected theorem le_trans (h : x ≤ y) (h' : y ≤ z) : x ≤ z := by
  rw [le_iff_value_le] at *
  exact ⟨h.1, h'.2.1, h.2.2.trans h'.2.2⟩

protected theorem lt_of_le_of_lt (h : x ≤ y) (h' : y < z) : x < z := by
  obtain ⟨hx, hy, hle⟩ := le_iff_value_le.mp h
  have hz := (ne_nan_of_lt h').2
  rw [lt_iff_value_lt hy hz] at h'
  exact (lt_iff_value_lt hx hz).mpr (hle.trans_lt h')

/-! Factors above one -/

/-- The product of a finite double and an infinity. -/
theorem mul_infinite (hx : x.isFinite = true) {t : Bool} (hy : ofFloat y = .infinite t) :
    ofFloat (x * y) = if value (ofFloat x) = 0 then .nan
      else .infinite (decide (value (ofFloat x) < 0) ^^ t) := by
  change ofFloat (Float.ofModel (Float.Model.pack
    (UnpackedFloat.mul Format.binary64 x.toModel.unpack y.toModel.unpack))) = _
  rw [ofFloat_eq_ofUnpacked x, unpack_of_infinite hy]
  rcases (canonical_unpack hx).zero_or_finite with ⟨s, hu⟩ | ⟨s, m, e, hm, hu, -⟩
  · rw [hu, value_zero, if_pos rfl]
    cases s <;> cases t <;> decide
  · have hpos : (0 : ℚ) < m * 2 ^ e := by positivity
    rw [hu]
    refine (ofFloat_pack_infinity _).trans ?_
    rw [isNegative_mul, ofUnpacked, value]
    generalize (m : ℚ) * 2 ^ e = q at hpos
    cases s <;> cases t <;> simp [isNegative, hpos, hpos.not_gt, hpos.ne']

theorem value_one : value (ofFloat 1.0) = 1 := by
  have hone : ofFloat 1.0 = .finite false (2 ^ 52) (-52) := by decide +kernel
  rw [hone]
  norm_num [value]

theorem value_ofFloat_zero : value (ofFloat 0.0) = 0 := by
  have hzero : ofFloat 0.0 = .finite false 0 (-1074) := by decide +kernel
  simp [hzero, value]

/-- A double is the nearest one to itself. -/
theorem hold_roundDouble_value (hx : x.isFinite = true) :
    hold (roundDouble (value (ofFloat x))) = value (ofFloat x) := by
  obtain ⟨hlow, hhigh⟩ := value_lt_overflow hx
  rw [ofFloat_eq_ofUnpacked] at hlow hhigh ⊢
  rw [← (canonical_unpack hx).rounds.value_eq, hold, min_eq_left hhigh.le, max_eq_right hlow.le]

/-- A quotient whose numerator is not above its denominator is one at most. -/
theorem div_le_one_of_value_le (hx : x.isFinite = true) (hy : y.isFinite = true)
    (hpos : 0 < value (ofFloat y)) (h : value (ofFloat x) ≤ value (ofFloat y)) : x / y ≤ 1.0 := by
  have hone : (1.0 : Float).isFinite = true := by decide
  obtain ⟨hnan, hvalue⟩ := value_div hx hy hpos.ne'
  refine le_iff_value_le.mpr ⟨hnan, ne_nan_of_isFinite hone, ?_⟩
  calc value (ofFloat (x / y))
      = hold (roundDouble (value (ofFloat x) / value (ofFloat y))) := hvalue
    _ ≤ hold (roundDouble 1) := hold_mono (roundDouble_mono ((div_le_one hpos).mpr h))
    _ = value (ofFloat 1.0) := by rw [← value_one, hold_roundDouble_value hone]

/-- Adding what is not negative does not make less. -/
theorem le_add_of_value_nonneg (hx : ofFloat x ≠ .nan) (hy : y.isFinite = true)
    (hpos : 0 ≤ value (ofFloat y)) : x ≤ x + y := by
  rw [le_iff_value_le]
  rcases infinite_or_finite hx with ⟨s, hinf⟩ | hfinite
  · have hsum := infinite_add hinf hy
    rw [hsum, hinf]
    exact ⟨by simp, by simp, le_rfl⟩
  · obtain ⟨hnan, hvalue⟩ := value_add hfinite hy
    refine ⟨hx, hnan, ?_⟩
    calc value (ofFloat x) = hold (roundDouble (value (ofFloat x))) :=
          (hold_roundDouble_value hfinite).symm
      _ ≤ hold (roundDouble (value (ofFloat x) + value (ofFloat y))) :=
          hold_mono (roundDouble_mono (le_add_of_nonneg_right hpos))
      _ = value (ofFloat (x + y)) := hvalue.symm

/-- An infinite multiple of what is not negative is below nothing. -/
theorem not_mul_infinity_lt (hx : x.isFinite = true) (hpos : 0 ≤ value (ofFloat x))
    (hy : ofFloat y = .infinite false) : ¬ x * y < z := by
  intro hlt
  obtain ⟨hnan, hz⟩ := ne_nan_of_lt hlt
  have hprod := mul_infinite hx hy
  rw [lt_iff_value_lt hnan hz] at hlt
  split at hprod
  case isTrue => exact hnan hprod
  case isFalse =>
    rw [hprod, decide_eq_false (not_lt.mpr hpos)] at hlt
    exact absurd hlt (not_lt.mpr (value_le_overflow hz).2)

/-- A factor above one is finite or the positive infinity. -/
theorem above_one (h : 1.0 < y) : 1 < value (ofFloat y) ∧
    (ofFloat y = .infinite false ∨ y.isFinite = true) := by
  obtain ⟨hone, hy⟩ := ne_nan_of_lt h
  rw [lt_iff_value_lt hone hy, value_one] at h
  refine ⟨h, ?_⟩
  rcases infinite_or_isFinite hy with ⟨-, hv⟩ | ⟨hinf, -⟩ | hfinite
  · linarith [overflow_pos]
  · exact .inl hinf
  · exact .inr hfinite

/-- A factor above one does not make less of what is not negative. -/
theorem not_mul_lt_self (hx : x.isFinite = true) (hpos : 0 ≤ value (ofFloat x)) (h : 1.0 < y) :
    ¬ x * y < x := by
  obtain ⟨hone, hinf | hfinite⟩ := above_one h
  · exact not_mul_infinity_lt hx hpos hinf
  · obtain ⟨hnan, hvalue⟩ := value_mul hx hfinite
    rw [lt_iff_value_lt hnan (ne_nan_of_isFinite hx), hvalue, not_lt]
    calc value (ofFloat x) = hold (roundDouble (value (ofFloat x))) :=
          (hold_roundDouble_value hx).symm
      _ ≤ hold (roundDouble (value (ofFloat x) * value (ofFloat y))) :=
          hold_mono (roundDouble_mono (le_mul_of_one_le_right hpos hone.le))

/-- Of what is not negative, a smaller factor makes no more. -/
theorem mul_lt_of_mul_lt (hx : x.isFinite = true) (hpos : 0 ≤ value (ofFloat x)) {f g : Float}
    (hf : 1.0 < f) (hfg : f < g) (h : x * g < z) : x * f < z := by
  obtain ⟨hnanf, hnang⟩ := ne_nan_of_lt hfg
  obtain ⟨hnan, hz⟩ := ne_nan_of_lt h
  rw [lt_iff_value_lt hnanf hnang] at hfg
  have hfinite : f.isFinite = true := by
    rcases (above_one hf).2 with hinf | hfinite
    · rw [hinf] at hfg
      exact absurd hfg (not_lt.mpr (value_le_overflow hnang).2)
    · exact hfinite
  rcases infinite_or_isFinite hnang with ⟨-, hv⟩ | ⟨hinf, -⟩ | hfinite'
  · linarith [(above_one hf).1, overflow_pos]
  · exact absurd h (not_mul_infinity_lt hx hpos hinf)
  · rw [lt_iff_value_lt hnan hz] at h
    rw [lt_iff_value_lt (value_mul hx hfinite).1 hz]
    exact (value_mul_mono hx hpos hfinite hfinite' hfg.le).trans_lt h

/-- No double is so close above one that a multiple of 53 bits would be rounded back. -/
theorem succ_le_mul {m : Nat} {e : Int} {q : ℚ} (hm : 2 ^ 52 ≤ m)
    (hq : ((2 ^ 52 + 1 : Nat) : ℚ) * 2 ^ (-52 : ℤ) ≤ q) :
    ((m + 1 : Nat) : ℚ) * 2 ^ e ≤ m * 2 ^ e * q := by
  have hm' : (2 : ℚ) ^ 52 ≤ m := by exact_mod_cast hm
  have hpow : (0 : ℚ) < 2 ^ e := by positivity
  have hnext : ((m + 1 : Nat) : ℚ) ≤ m * (((2 ^ 52 + 1 : Nat) : ℚ) * 2 ^ (-52 : ℤ)) := by
    norm_num only
    push_cast
    linarith
  calc ((m + 1 : Nat) : ℚ) * 2 ^ e
      ≤ m * (((2 ^ 52 + 1 : Nat) : ℚ) * 2 ^ (-52 : ℤ)) * 2 ^ e :=
        mul_le_mul_of_nonneg_right hnext hpow.le
    _ ≤ m * q * 2 ^ e := by gcongr
    _ = m * 2 ^ e * q := by ring

theorem roundMagnitude_succ {m : Nat} {e : Int} (h : Proper m e) :
    roundMagnitude ((m + 1 : Nat) * 2 ^ e) = (m + 1 : Nat) * 2 ^ e := by
  rcases Nat.lt_or_eq_of_le (Nat.succ_le_of_lt h.lt) with hlt | heq
  · exact roundMagnitude_eq_self hlt h.le
  · have hcarry : ((m + 1 : Nat) : ℚ) * 2 ^ e = (2 ^ 52 : Nat) * 2 ^ (e + 1) := by
      rw [show m + 1 = 2 ^ 53 from heq, zpow_add₀ (by norm_num)]
      push_cast
      ring
    rw [hcarry]
    exact roundMagnitude_eq_self (by norm_num) (by have := h.le; omega)

theorem one_gap_le_value (h : 1.0 < y) (hy : y.isFinite = true) :
    ((2 ^ 52 + 1 : Nat) : ℚ) * 2 ^ (-52 : ℤ) ≤ value (ofFloat y) := by
  have hone := (above_one h).1
  obtain ⟨s, n, t, hread⟩ := isFinite_iff.mp hy
  have hpos : (0 : ℚ) ≤ n * 2 ^ t := by positivity
  rw [hread] at hone ⊢
  cases s with
  | true =>
    simp only [value, signed_true] at hone
    linarith
  | false =>
    have hproper : Proper (2 ^ 52) (-52) := ⟨by norm_num, by norm_num, .inl le_rfl⟩
    refine hproper.succ_le (proper_of_ofFloat hread).1 ?_
    calc ((2 ^ 52 : Nat) : ℚ) * 2 ^ (-52 : ℤ) = 1 := by norm_num
      _ < n * 2 ^ t := hone

theorem Proper.normal_of_one_le {m : Nat} {e : Int} (h : Proper m e)
    (hone : (1 : ℚ) ≤ m * 2 ^ e) : 2 ^ 52 ≤ m := by
  rcases h.normal with hm | rfl
  · exact hm
  · have hm : (m : ℚ) ≤ 2 ^ (53 : ℤ) := by exact_mod_cast h.lt.le
    have hsmall : (m : ℚ) * 2 ^ (-1074 : ℤ) < 1 := by
      calc (m : ℚ) * 2 ^ (-1074 : ℤ) ≤ 2 ^ (53 : ℤ) * 2 ^ (-1074 : ℤ) := by gcongr
        _ = 2 ^ (-1021 : ℤ) := by rw [← zpow_add₀ (by norm_num)]; norm_num
        _ < 1 := zpow_lt_one_of_neg₀ (by norm_num) (by norm_num)
    exact absurd hone (not_le.mpr hsmall)

/-- A factor above one makes less of what is minus one or below. -/
theorem mul_lt_self (hx : x.isFinite = true) (hneg : value (ofFloat x) ≤ -1) (h : 1.0 < y) :
    x * y < x := by
  rcases (above_one h).2 with hinf | hfinite
  · have hprod := mul_infinite hx hinf
    rw [if_neg (by linarith), decide_eq_true (by linarith)] at hprod
    exact (infinite_lt_iff hprod hx).mpr rfl
  obtain ⟨s, m, e, hread⟩ := isFinite_iff.mp hx
  have hproper := (proper_of_ofFloat hread).1
  have hpos : (0 : ℚ) ≤ m * 2 ^ e := by positivity
  obtain ⟨hnan, hvalue⟩ := value_mul hx hfinite
  have hlow := (value_lt_overflow hx).1
  rw [lt_iff_value_lt hnan (ne_nan_of_isFinite hx), hvalue]
  rw [hread, value] at hneg hlow ⊢
  cases s with
  | false => exact absurd hneg (not_le.mpr (neg_one_lt_zero.trans_le hpos))
  | true =>
    -- The product is beyond the next double.
    rw [signed_true, neg_le_neg_iff] at hneg
    have hnext := succ_le_mul (e := e) (hproper.normal_of_one_le hneg) (one_gap_le_value h hfinite)
    have hround : roundDouble (signed true ((m : ℚ) * 2 ^ e) * value (ofFloat y)) ≤
        signed true (((m + 1 : Nat) : ℚ) * 2 ^ e) := by
      calc roundDouble (signed true ((m : ℚ) * 2 ^ e) * value (ofFloat y))
          ≤ roundDouble (signed true (((m + 1 : Nat) : ℚ) * 2 ^ e)) :=
            roundDouble_mono (by rw [signed_true, neg_mul]; exact neg_le_neg hnext)
        _ = signed true (((m + 1 : Nat) : ℚ) * 2 ^ e) := by
            rw [roundDouble_signed true (by positivity), roundMagnitude_succ hproper]
    have hless := hround.trans_lt (neg_lt_neg (lt_succ_mul_zpow m e))
    exact max_lt hlow (min_lt_of_left_lt hless)

end JourneyPages.Number.Binary64
