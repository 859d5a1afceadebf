import JourneyPages.Proofs.Number.Packing
import JourneyPages.Proofs.Number.Rounding

/-!
Rounding of significands in the logical model of `Float`. An operation hands on a quotient that is
cut off to an integer, with two bits on what is cut off. Shifting cuts off more and keeps the two
bits right, so that what is rounded in the end is the exact quotient.
-/
namespace JourneyPages.Number.Binary64

open Float.Model (Format UnpackedFloat totalExponent)
open Float.Model.UnpackedFloat

/-- A quotient cut off to an integer, with two bits on what is cut off: whether it is half a unit at
least, and whether it is neither nothing nor exactly that. -/
def cutOff (n d : Nat) : ExtendedMantissa :=
  ⟨n / d, decide (d ≤ 2 * (n % d)), decide (2 * n % d ≠ 0)⟩

theorem cutOff_one (m : Nat) : cutOff m 1 = ExtendedMantissa.ofMantissaAndAccuracy m .exact := by
  simp [cutOff, ExtendedMantissa.ofMantissaAndAccuracy, Nat.mod_one]

theorem cutOff_eq (n : Nat) {d : Nat} (hd : 0 < d) : cutOff n d =
    ExtendedMantissa.ofMantissaAndAccuracy (n / d) (accuracyOfFraction (n % d) d) := by
  have hrem := Nat.mod_lt n hd
  have hover : 2 * n % d = 2 * (n % d) % d := by rw [Nat.mul_mod_mod]
  rw [cutOff, hover, accuracyOfFraction]
  generalize n % d = r at hrem
  by_cases hzero : r = 0
  · simp [hzero, ExtendedMantissa.ofMantissaAndAccuracy, hd.ne']
  rw [if_neg hzero]
  rcases Nat.lt_trichotomy (2 * r) d with h | h | h
  · rw [Nat.compare_eq_lt.mpr h, Nat.mod_eq_of_lt h]
    simp [ExtendedMantissa.ofMantissaAndAccuracy, h, hzero]
  · rw [Nat.compare_eq_eq.mpr h, h]
    simp [ExtendedMantissa.ofMantissaAndAccuracy]
  · rw [Nat.compare_eq_gt.mpr h, Nat.mod_eq_sub_mod h.le, Nat.mod_eq_of_lt (by omega)]
    simp [ExtendedMantissa.ofMantissaAndAccuracy, h.le]
    omega

theorem shiftRightOne_cutOff (n : Nat) {d : Nat} (hd : 0 < d) :
    (cutOff n d).shiftRightOne = cutOff n (d * 2) := by
  have hrem := Nat.mod_lt n hd
  have hbit : n % (d * 2) = n % d + d * (n / d % 2) := Nat.mod_mul
  have htwice : 2 * n % (d * 2) = 2 * (n % d) := by rw [Nat.mul_comm d, Nat.mul_mod_mul_left]
  have hover : 2 * n % d = 2 * (n % d) % d := by rw [Nat.mul_mod_mod]
  simp only [cutOff, ExtendedMantissa.shiftRightOne, ExtendedMantissa.mk.injEq]
  refine ⟨Nat.div_div_eq_div_mul n d 2, ?_, ?_⟩
  · rw [hbit]
    rcases Nat.mod_two_eq_zero_or_one (n / d) with h | h
    · simp [h]
      omega
    · simp [h]
      omega
  · rw [htwice, hover, Bool.eq_iff_iff]
    simp only [Bool.or_eq_true, decide_eq_true_eq]
    by_cases h : 2 * (n % d) < d
    · rw [Nat.mod_eq_of_lt h]
      omega
    · omega

/-- Shifting a cut quotient cuts a quotient by more. -/
theorem shiftRight_cutOff (n : Nat) {d : Nat} (hd : 0 < d) (k : Nat) :
    cutOff n d >>> k = cutOff n (d * 2 ^ k) := by
  change k.repeat ExtendedMantissa.shiftRightOne _ = _
  induction k with
  | zero => simp [Nat.repeat]
  | succ k ih =>
    rw [Nat.repeat, ih, shiftRightOne_cutOff n (by positivity), pow_succ, Nat.mul_assoc]

/-- The two bits are what rounding needs to know. -/
theorem roundedMantissa_cutOff (n : Nat) {d : Nat} (hd : 0 < d) :
    (cutOff n d).roundedMantissa = divRound .even n d := by
  have hrem := Nat.mod_lt n hd
  have hover : 2 * n % d = 2 * (n % d) % d := by rw [Nat.mul_mod_mod]
  rw [cutOff, ExtendedMantissa.roundedMantissa, hover]
  rcases Nat.lt_trichotomy (2 * (n % d)) d with h | h | h
  · have hdown : divRound .even n d = n / d := by simp [divRound, h]
    rw [hdown, decide_eq_false (by omega)]
    cases decide (2 * (n % d) % d ≠ 0) <;> rfl
  · rw [divRound_of_half _ h, h, Nat.mod_self, decide_eq_true le_rfl]
    change n / d + n / d % 2 = _
    rcases Nat.mod_two_eq_zero_or_one (n / d) with heven | hodd
    · rw [if_pos ⟨rfl, heven⟩, heven, Nat.add_zero]
    · rw [if_neg (by omega), hodd]
  · have hsticky : 2 * (n % d) % d ≠ 0 := by
      rw [Nat.mod_eq_sub_mod h.le, Nat.mod_eq_of_lt (by omega)]
      omega
    rw [divRound_of_over_half _ h, decide_eq_true h.le, decide_eq_true hsticky]
    rfl

theorem targetExponent_eq (m : Nat) (e : Int) :
    Format.binary64.targetExponent (totalExponent m e) = max (m.log2 + e - 52) (-1074) := by
  change max ((m.log2 : Int) + 1 + e - (53 : Nat)) (3 - 2 ^ 10 - (53 : Nat)) = _
  omega

theorem targetExponent_eq_lastBit {m : Nat} (hm : 0 < m) (e : Int) :
    Format.binary64.targetExponent (totalExponent m e) = lastBit (m * 2 ^ e) := by
  rw [targetExponent_eq, lastBit_mul_zpow hm]

/-- A quotient with bits to spare has the last bit of what it is cut off to. -/
theorem targetExponent_div {n d : Nat} (hn : 0 < n) (hd : 0 < d) {e : Int}
    (he : e ≤ lastBit (n / d * 2 ^ e)) :
    Format.binary64.targetExponent (totalExponent (n / d) e) = lastBit (n / d * 2 ^ e) := by
  rw [targetExponent_eq]
  by_cases h : d ≤ n
  · rw [lastBit, log_div_mul_zpow hd h]
  · -- What is cut off to nothing has no bit above the lowest one.
    have hless : (n : ℚ) / d * 2 ^ e < 2 ^ e := by
      refine mul_lt_of_lt_one_left (by positivity) ?_
      rw [div_lt_one (by exact_mod_cast hd)]
      exact_mod_cast Nat.lt_of_not_le h
    have hlog : Int.log 2 ((n : ℚ) / d * 2 ^ e) < e := by
      rw [← Int.lt_zpow_iff_log_lt (by norm_num) (by positivity)]
      exact_mod_cast hless
    rw [Nat.div_eq_of_lt (Nat.lt_of_not_le h), Nat.log2_zero]
    unfold lastBit at *
    omega

/-- A significand that rounding carried to 54 bits loses its last bit, which is zero. -/
theorem shift_carry {r : Nat} {t : Int} (hr : r ≤ 2 ^ 53) (ht : -1074 ≤ t)
    (h : 2 ^ 52 ≤ r ∨ t = -1074) : ∃ m e,
      (shiftToTargetExponent Format.binary64 r t .exact).1.mantissa = m ∧
      (shiftToTargetExponent Format.binary64 r t .exact).2 = e ∧
      Proper m e ∧ (m : ℚ) * 2 ^ e = r * 2 ^ t := by
  rcases Nat.lt_or_eq_of_le hr with hlt | rfl
  · have hlog : r.log2 < 53 := by
      rcases Nat.eq_zero_or_pos r with rfl | hpos
      · decide
      · exact (Nat.log2_lt (Nat.ne_of_gt hpos)).mpr hlt
    have hstay : (Format.binary64.targetExponent (totalExponent r t) - t).toNat = 0 := by
      rw [targetExponent_eq]
      omega
    refine ⟨r, t, ?_, ?_, ⟨hlt, ht, h⟩, rfl⟩
    · rw [shiftToTargetExponent, shiftToExponent, hstay]
      rfl
    · rw [shiftToTargetExponent, shiftToExponent, hstay]
      omega
  · have hmove : (Format.binary64.targetExponent (totalExponent (2 ^ 53) t) - t).toNat = 1 := by
      rw [targetExponent_eq, Nat.log2_two_pow]
      omega
    refine ⟨2 ^ 52, t + 1, ?_, ?_, ⟨by norm_num, by omega, .inl le_rfl⟩, ?_⟩
    · rw [shiftToTargetExponent, shiftToExponent, hmove]
      rfl
    · rw [shiftToTargetExponent, shiftToExponent, hmove]
      rfl
    · rw [zpow_add₀ (by norm_num)]
      push_cast
      ring

/-- Rounding of a quotient that is cut off with bits to spare. -/
theorem roundWithAccuracy_eq (s : Sign) {n d : Nat} (hn : 0 < n) (hd : 0 < d) {acc : Accuracy}
    (hacc : ExtendedMantissa.ofMantissaAndAccuracy (n / d) acc = cutOff n d) {e : Int}
    (he : e ≤ lastBit (n / d * 2 ^ e)) : ∃ m' e', Proper m' e' ∧
      (m' : ℚ) * 2 ^ e' = roundMagnitude (n / d * 2 ^ e) ∧
      roundWithAccuracy Format.binary64 s (n / d) e acc =
        if h : m' = 0 then .zero s else .finite s m' e' (Nat.pos_of_ne_zero h) := by
  obtain ⟨k, hk⟩ : ∃ k : ℕ, e + k = lastBit (n / d * 2 ^ e) :=
    ⟨(lastBit (n / d * 2 ^ e) - e).toNat, by omega⟩
  have hshift : (lastBit (n / d * 2 ^ e) - e).toNat = k := by omega
  have hpos : (0 : ℚ) < n / d * 2 ^ e := by positivity
  have hround := roundMagnitude_div_mul_zpow n hd e k hk
  have hunit : (0 : ℚ) < 2 ^ (e + k) := by positivity
  -- The rounded significand, before a carry is looked for.
  have hle : divRound .even n (d * 2 ^ k) ≤ 2 ^ 53 := by
    have h := roundMagnitude_le_zpow _ hpos
    rw [hround, ← hk, zpow_add₀ (by norm_num) _ 53, mul_comm] at h
    exact_mod_cast le_of_mul_le_mul_left h hunit
  have hlow : -1074 ≤ e + k := hk ▸ le_max_right _ _
  have hfull : 2 ^ 52 ≤ divRound .even n (d * 2 ^ k) ∨ e + k = -1074 := by
    rcases hlow.lt_or_eq with hlt | heq
    · have h := zpow_le_roundMagnitude hpos (hk ▸ hlt)
      rw [hround, ← hk, zpow_add₀ (by norm_num) _ 52, mul_comm _ ((2 : ℚ) ^ (e + k))] at h
      exact .inl (by exact_mod_cast le_of_mul_le_mul_left h hunit)
    · exact .inr heq.symm
  obtain ⟨m', e', hmantissa, hexponent, hproper, hvalue⟩ := shift_carry hle hlow hfull
  refine ⟨m', e', hproper, by rw [hvalue, hround], ?_⟩
  unfold roundWithAccuracy
  rw [shiftToTargetExponent, targetExponent_div hn hd he, shiftToExponent, hshift, hacc]
  dsimp only
  rw [shiftRight_cutOff n hd, roundedMantissa_cutOff n (by positivity)]
  simp only [hmantissa, hexponent]

/-- A quotient has at least the bits that the significands leave it. -/
theorem le_log_div {m n : Nat} (hm : 0 < m) (hn : 0 < n) (e t : Int) :
    (m.log2 : Int) + e - (n.log2 + t) - 1 ≤ Int.log 2 ((m : ℚ) * 2 ^ e / (n * 2 ^ t)) := by
  have hpos : (0 : ℚ) < m * 2 ^ e / (n * 2 ^ t) := by positivity
  have hpow : (0 : ℚ) < 2 ^ t := by positivity
  have hlow : (2 : ℚ) ^ (m.log2 : Int) ≤ m := by
    rw [zpow_natCast]
    exact_mod_cast Nat.log2_self_le hm.ne'
  have hhigh : (n : ℚ) ≤ 2 ^ ((n.log2 : Int) + 1) := by
    exact_mod_cast (Nat.lt_log2_self (n := n)).le
  rw [← Int.zpow_le_iff_le_log (by norm_num) hpos, Nat.cast_ofNat, le_div_iff₀ (by positivity)]
  calc (2 : ℚ) ^ ((m.log2 : Int) + e - (n.log2 + t) - 1) * (n * 2 ^ t)
      ≤ 2 ^ ((m.log2 : Int) + e - (n.log2 + t) - 1) * (2 ^ ((n.log2 : Int) + 1) * 2 ^ t) := by
        gcongr
    _ = 2 ^ ((m.log2 : Int) + e) := by
        rw [← zpow_add₀ (by norm_num), ← zpow_add₀ (by norm_num)]
        congr 1
        omega
    _ = 2 ^ (m.log2 : Int) * 2 ^ e := zpow_add₀ (by norm_num) _ _
    _ ≤ m * 2 ^ e := by gcongr

/-- Division hands on the exact quotient, cut off with bits to spare. -/
theorem divCore_eq {m n : Nat} (hm : 0 < m) (hn : 0 < n) (e t : Int) : ∃ (k : Nat) (r : Int),
    divCore Format.binary64 m e n t =
      (m * 2 ^ k / n, r, accuracyOfFraction (m * 2 ^ k % n) n) ∧
    ((m * 2 ^ k : Nat) : ℚ) / n * 2 ^ r = m * 2 ^ e / (n * 2 ^ t) ∧
    r ≤ lastBit (m * 2 ^ e / (n * 2 ^ t)) := by
  obtain ⟨r, hr⟩ : ∃ r, min (e - t) (Format.binary64.targetExponent
      (totalExponent m e - totalExponent n t)) = r := ⟨_, rfl⟩
  obtain ⟨k, hk⟩ : ∃ k : ℕ, e - t = r + k := ⟨(e - t - r).toNat, by omega⟩
  refine ⟨k, r, ?_, ?_, ?_⟩
  · have hshift : (e - t - r).toNat = k := by omega
    unfold divCore
    dsimp only
    rw [hr, hshift, Nat.shiftLeft_eq]
  · have hpow : (2 : ℚ) ^ e = 2 ^ (r + k) * 2 ^ t := by
      rw [← hk, ← zpow_add₀ (by norm_num), sub_add_cancel]
    rw [hpow, zpow_add₀ (by norm_num), zpow_natCast]
    push_cast
    field_simp
  · have hbits := le_log_div hm hn e t
    have htarget : r ≤ max ((m.log2 : Int) + e - (n.log2 + t) - 53) (-1074) := by
      rw [← hr]
      refine (min_le_right _ _).trans (le_of_eq ?_)
      change max ((m.log2 : Int) + 1 + e - ((n.log2 : Int) + 1 + t) - (53 : Nat))
        (3 - 2 ^ 10 - (53 : Nat)) = _
      omega
    unfold lastBit
    omega

end JourneyPages.Number.Binary64
