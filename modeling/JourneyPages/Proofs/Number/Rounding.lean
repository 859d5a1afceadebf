import JourneyPages.Number.Rounding
import Mathlib.Data.Int.Log
import Mathlib.Data.Rat.Floor
import Mathlib.Algebra.Order.Field.Power
import Mathlib.Algebra.Order.Round
import Mathlib.Data.Nat.Cast.Order.Field
import Mathlib.Tactic.FieldSimp

/-!
Rounding and order. Rounding a quotient to an integer keeps the order of quotients, and so does
rounding a number to 53 bits, or to fewer where it is too small for that: numbers with different
last bits have a power of two between them, which is a double of both kinds.
-/
namespace JourneyPages.Number

theorem le_divRound (tie : Tie) (n d : Nat) : n / d ≤ divRound tie n d := by
  rcases divRound_eq_or tie n d with ⟨hr, -⟩ | ⟨hr, -⟩ <;> omega

theorem divRound_le (tie : Tie) (n d : Nat) : divRound tie n d ≤ n / d + 1 := by
  rcases divRound_eq_or tie n d with ⟨hr, -⟩ | ⟨hr, -⟩ <;> omega

theorem divRound_of_over_half (tie : Tie) {n d : Nat} (h : d < 2 * (n % d)) :
    divRound tie n d = n / d + 1 := by
  rcases divRound_eq_or tie n d with ⟨-, hle⟩ | ⟨hr, -⟩
  · omega
  · exact hr

theorem divRound_of_half (tie : Tie) {n d : Nat} (h : 2 * (n % d) = d) :
    divRound tie n d = if tie = .even ∧ n / d % 2 = 0 then n / d else n / d + 1 := by
  unfold divRound
  rw [if_neg (by omega), if_neg (by omega)]
  cases tie <;> simp

/-- With ties going up, the result is half a unit more rounded down. -/
theorem divRound_up (n : Nat) {d : Nat} (hd : 0 < d) :
    divRound .up n d = (2 * n + d) / (2 * d) := by
  have hn := Nat.div_add_mod n d
  have hr := Nat.mod_lt n hd
  symm
  unfold divRound
  dsimp only
  generalize n / d = q at hn
  generalize n % d = r at hn hr
  subst hn
  split_ifs
  · exact Nat.div_eq_of_lt_le (by linarith) (by linarith)
  · exact Nat.div_eq_of_lt_le (by linarith) (by linarith)
  · exact Nat.div_eq_of_lt_le (by linarith) (by linarith)

/-- Rounding keeps the order of quotients. -/
theorem divRound_le_divRound (tie : Tie) {n d n' d' : Nat} (hd : 0 < d) (hd' : 0 < d')
    (h : n * d' ≤ n' * d) : divRound tie n d ≤ divRound tie n' d' := by
  have hq : n / d ≤ n' / d' := by
    calc n / d = n * d' / (d * d') := (Nat.mul_div_mul_right n d hd').symm
      _ ≤ n' * d / (d * d') := Nat.div_le_div_right h
      _ = n' / d' := by rw [Nat.mul_comm d d', Nat.mul_div_mul_right n' d' hd]
  rcases Nat.lt_or_eq_of_le hq with hlt | heq
  · exact (divRound_le tie n d).trans (hlt.trans_le (le_divRound tie n' d'))
  · -- With equal whole parts the remainders decide.
    have hrem : n % d * d' ≤ n' % d' * d := by
      have hn := Nat.div_add_mod n d
      have hn' := Nat.div_add_mod n' d'
      rw [← hn, ← hn', heq] at h
      nlinarith
    rcases Nat.lt_trichotomy (2 * (n % d)) d with hunder | hhalf | hover
    · have hdown : divRound tie n d = n / d := by simp [divRound, hunder]
      rw [hdown, heq]
      exact le_divRound tie n' d'
    · have hhalf' : d' ≤ 2 * (n' % d') := by
        by_contra hlt
        nlinarith
      rcases Nat.lt_or_eq_of_le hhalf' with hover' | hhalf'
      · rw [divRound_of_over_half tie hover', ← heq]
        exact divRound_le tie n d
      · rw [divRound_of_half tie hhalf, divRound_of_half tie hhalf'.symm, heq]
    · have hover' : d' < 2 * (n' % d') := by
        by_contra hle
        nlinarith
      rw [divRound_of_over_half tie hover', ← heq]
      exact divRound_le tie n d

/-- The natural number nearest to a quotient that is not negative. -/
def nearestNat (tie : Tie) (q : ℚ) : ℕ := divRound tie q.num.toNat q.den

theorem nearestNat_mono (tie : Tie) {q r : ℚ} (hq : 0 ≤ q) (h : q ≤ r) :
    nearestNat tie q ≤ nearestNat tie r := by
  apply divRound_le_divRound tie q.den_pos r.den_pos
  have hq' := Rat.num_nonneg.mpr hq
  have hr' := Rat.num_nonneg.mpr (hq.trans h)
  have hcross := (Rat.le_iff q r).mp h
  zify
  rwa [Int.toNat_of_nonneg hq', Int.toNat_of_nonneg hr']

theorem nearestNat_div (tie : Tie) (n : ℕ) {d : ℕ} (hd : 0 < d) :
    nearestNat tie (n / d) = divRound tie n d := by
  have hcross : ((n : ℚ) / d).num.toNat * d = n * ((n : ℚ) / d).den := by
    have hpos : (0 : ℚ) ≤ n / d := by positivity
    have hnum := Rat.num_nonneg.mpr hpos
    have hq := Rat.num_div_den ((n : ℚ) / d)
    rw [div_eq_div_iff (by positivity) (by positivity)] at hq
    zify
    rw [Int.toNat_of_nonneg hnum]
    exact_mod_cast hq
  apply Nat.le_antisymm
  · exact divRound_le_divRound tie (Rat.den_pos _) hd hcross.le
  · exact divRound_le_divRound tie hd (Rat.den_pos _) hcross.ge

theorem nearestNat_natCast (tie : Tie) (n : ℕ) : nearestNat tie n = n := by
  have h := nearestNat_div tie n Nat.one_pos
  rw [Nat.cast_one, div_one] at h
  rw [h]
  simpa using divRound_mul tie n 1 Nat.one_pos

theorem nearestNat_zero (tie : Tie) : nearestNat tie 0 = 0 := by
  simpa using nearestNat_natCast tie 0

theorem nearestNat_up {q : ℚ} (hq : 0 ≤ q) : (nearestNat .up q : ℤ) = round q := by
  have hnum : (q.num.toNat : ℚ) = q.num := by
    exact_mod_cast Int.toNat_of_nonneg (Rat.num_nonneg.mpr hq)
  have hhalf : q + 1 / 2 = (2 * q.num.toNat + q.den : ℕ) / (2 * q.den : ℕ) := by
    have hden := Rat.mul_den_eq_num q
    rw [eq_div_iff (by exact_mod_cast (Nat.mul_pos two_pos q.den_pos).ne')]
    push_cast
    rw [hnum]
    linarith
  rw [round_eq, hhalf, Rat.floor_natCast_div_natCast, nearestNat, divRound_up _ q.den_pos]
  push_cast
  rfl

/-! Numbers and their signs -/

/-- A number with its sign set apart. -/
def signed {α : Type} [Neg α] (negative : Bool) (x : α) : α := if negative then -x else x

/-- What is done with a magnitude, done with a number of either sign. -/
def bySign {α : Type} [Neg α] (f : ℚ → α) (q : ℚ) : α := if q < 0 then -f (-q) else f q

section signed
variable {α : Type} [AddCommGroup α] {f : ℚ → α}

@[simp] theorem signed_false (x : α) : signed false x = x := rfl

@[simp] theorem signed_true (x : α) : signed true x = -x := rfl

theorem bySign_signed (hzero : f 0 = 0) (s : Bool) {q : ℚ} (h : 0 ≤ q) :
    bySign f (signed s q) = signed s (f q) := by
  cases s
  · exact if_neg (not_lt.mpr h)
  · rcases h.eq_or_lt with rfl | hpos
    · simp [bySign, hzero]
    · rw [signed_true, signed_true, bySign, if_pos (neg_neg_of_pos hpos), neg_neg]

variable [LinearOrder α] [IsOrderedAddMonoid α]

theorem bySign_mono (hzero : f 0 = 0) (hf : ∀ {q r}, 0 ≤ q → q ≤ r → f q ≤ f r) {q r : ℚ}
    (h : q ≤ r) : bySign f q ≤ bySign f r := by
  have hpos : ∀ {q}, 0 ≤ q → 0 ≤ f q := fun hq => hzero.symm.trans_le (hf le_rfl hq)
  unfold bySign
  split_ifs with hq hr hr
  · exact neg_le_neg (hf (neg_nonneg.mpr hr.le) (neg_le_neg h))
  · exact (neg_nonpos.mpr (hpos (neg_nonneg.mpr hq.le))).trans (hpos (not_lt.mp hr))
  · exact absurd (h.trans_lt hr) hq
  · exact hf (not_lt.mp hq) h

end signed

/-- The integer nearest to a number, halves going away from zero. -/
def nearestInt (q : ℚ) : ℤ := bySign (fun q => (nearestNat .up q : ℤ)) q

theorem nearestInt_mono {q r : ℚ} (h : q ≤ r) : nearestInt q ≤ nearestInt r :=
  bySign_mono (by simp [nearestNat_zero])
    (fun hq h => by exact_mod_cast nearestNat_mono .up hq h) h

theorem nearestInt_signed (s : Bool) {q : ℚ} (h : 0 ≤ q) :
    nearestInt (signed s q) = signed s (nearestNat .up q : ℤ) :=
  bySign_signed (by simp [nearestNat_zero]) s h

theorem nearestInt_eq_bySign_round (q : ℚ) : nearestInt q = bySign round q := by
  unfold nearestInt bySign
  split_ifs with hq
  · exact congrArg Neg.neg (nearestNat_up (neg_nonneg.mpr hq.le))
  · exact nearestNat_up (not_lt.mp hq)

/-- What is above minus one half is not rounded below zero. -/
theorem nearestInt_nonneg_iff {q : ℚ} : 0 ≤ nearestInt q ↔ -1 / 2 < q := by
  rw [nearestInt_eq_bySign_round, bySign]
  split_ifs with hq
  · rw [neg_nonneg, round_eq, ← Int.lt_add_one_iff, Int.floor_lt]
    constructor <;> (intro h; push_cast at *; linarith)
  · refine iff_of_true ?_ (by linarith)
    rw [round_eq, Int.floor_nonneg]
    linarith

/-! Rounding to a last bit -/

/-- The exponent of the last bit of a significand for a positive number: 53 bits in all, unless the
number is too small for that. -/
def lastBit (q : ℚ) : ℤ := max (Int.log 2 q - 52) (-1074)

/-- A number that is not negative, rounded to its last bit. -/
def roundMagnitude (q : ℚ) : ℚ := nearestNat .even (q / 2 ^ lastBit q) * 2 ^ lastBit q

/-- The number that stands for what is too large to be a double. -/
def overflow : ℚ := 2 ^ (1024 : ℤ)

/-- A number as doubles can hold it, if there were no largest one. -/
def roundDouble (q : ℚ) : ℚ := bySign roundMagnitude q

theorem roundMagnitude_nonneg (q : ℚ) : 0 ≤ roundMagnitude q := by
  unfold roundMagnitude
  positivity

theorem roundMagnitude_zero : roundMagnitude 0 = 0 := by
  rw [roundMagnitude, zero_div, nearestNat_zero, Nat.cast_zero, zero_mul]

/-- Numbers below the next power of two have no more than 53 bits. -/
theorem roundMagnitude_le_zpow (q : ℚ) (hq : 0 < q) :
    roundMagnitude q ≤ 2 ^ (lastBit q + 53) := by
  have hlt : q < 2 ^ (lastBit q + 53) := by
    refine (Int.lt_zpow_succ_log_self (by norm_num : 1 < 2) q).trans_le ?_
    exact zpow_le_zpow_right₀ (by norm_num) (by unfold lastBit; omega)
  have hpos : (0 : ℚ) < 2 ^ lastBit q := by positivity
  have hle : q / 2 ^ lastBit q ≤ ((2 ^ 53 : ℕ) : ℚ) := by
    rw [div_le_iff₀ hpos]
    refine hlt.le.trans (le_of_eq ?_)
    rw [zpow_add₀ (by norm_num), mul_comm]
    norm_num
  have hnat := nearestNat_mono .even (div_nonneg hq.le hpos.le) hle
  rw [nearestNat_natCast] at hnat
  rw [roundMagnitude, zpow_add₀ (by norm_num), mul_comm]
  refine mul_le_mul_of_nonneg_left ?_ hpos.le
  exact_mod_cast hnat

/-- A number with a last bit above the lowest one has 53 bits at least. -/
theorem zpow_le_roundMagnitude {q : ℚ} (hq : 0 < q) (h : -1074 < lastBit q) :
    2 ^ (lastBit q + 52) ≤ roundMagnitude q := by
  have hpos : (0 : ℚ) < 2 ^ lastBit q := by positivity
  have hge : ((2 ^ 52 : ℕ) : ℚ) ≤ q / 2 ^ lastBit q := by
    rw [le_div_iff₀ hpos]
    have hlog : lastBit q + 52 = Int.log 2 q := by unfold lastBit at *; omega
    calc ((2 ^ 52 : ℕ) : ℚ) * 2 ^ lastBit q = 2 ^ (lastBit q + 52) := by
          rw [zpow_add₀ (by norm_num), mul_comm]
          norm_num
      _ = 2 ^ Int.log 2 q := by rw [hlog]
      _ ≤ q := by exact_mod_cast Int.zpow_log_le_self (by norm_num : 1 < 2) hq
  have hnat := nearestNat_mono .even (by positivity) hge
  rw [nearestNat_natCast] at hnat
  rw [roundMagnitude, zpow_add₀ (by norm_num), mul_comm]
  refine mul_le_mul_of_nonneg_right ?_ hpos.le
  exact_mod_cast hnat

theorem roundMagnitude_mono {q r : ℚ} (hq : 0 ≤ q) (h : q ≤ r) :
    roundMagnitude q ≤ roundMagnitude r := by
  rcases hq.eq_or_lt with rfl | hq
  · rw [roundMagnitude_zero]
    exact roundMagnitude_nonneg r
  have hbit : lastBit q ≤ lastBit r := by
    have hlog := Int.log_mono_right (b := 2) hq h
    unfold lastBit
    omega
  rcases hbit.eq_or_lt with hsame | hless
  · have hpos : (0 : ℚ) < 2 ^ lastBit r := by positivity
    rw [roundMagnitude, roundMagnitude, hsame]
    refine mul_le_mul_of_nonneg_right ?_ hpos.le
    exact_mod_cast nearestNat_mono .even (div_nonneg hq.le hpos.le)
      (div_le_div_of_nonneg_right h hpos.le)
  · -- A power of two is between the two.
    calc roundMagnitude q ≤ 2 ^ (lastBit q + 53) := roundMagnitude_le_zpow q hq
      _ ≤ 2 ^ (lastBit r + 52) := zpow_le_zpow_right₀ (by norm_num) (by omega)
      _ ≤ roundMagnitude r := zpow_le_roundMagnitude (hq.trans_le h)
          (lt_of_le_of_lt (le_max_right _ _) hless)

/-- Rounding keeps the order of numbers. -/
theorem roundDouble_mono {q r : ℚ} (h : q ≤ r) : roundDouble q ≤ roundDouble r :=
  bySign_mono roundMagnitude_zero roundMagnitude_mono h

theorem log_div_mul_zpow {n d : ℕ} (hd : 0 < d) (h : d ≤ n) (e : ℤ) :
    Int.log 2 ((n : ℚ) / d * 2 ^ e) = Nat.log2 (n / d) + e := by
  have hpow : (0 : ℚ) < 2 ^ e := by positivity
  have hpos : (0 : ℚ) < n / d * 2 ^ e := by have := hd.trans_le h; positivity
  have hquot : 0 < n / d := Nat.div_pos h hd
  have hdown : ((n / d : ℕ) : ℚ) ≤ n / d := Nat.cast_div_le
  have hup : (n : ℚ) / d < (n / d + 1 : ℕ) := by
    rw [div_lt_iff₀ (by exact_mod_cast hd)]
    exact_mod_cast Nat.lt_mul_of_div_lt (Nat.lt_succ_self (n / d)) hd
  have hge : (Nat.log2 (n / d) : ℤ) + e ≤ Int.log 2 ((n : ℚ) / d * 2 ^ e) := by
    rw [← Int.zpow_le_iff_le_log (by norm_num) hpos, Nat.cast_ofNat, zpow_add₀ (by norm_num),
      zpow_natCast]
    refine mul_le_mul_of_nonneg_right (le_trans ?_ hdown) hpow.le
    exact_mod_cast Nat.log2_self_le hquot.ne'
  have hlt : Int.log 2 ((n : ℚ) / d * 2 ^ e) < (Nat.log2 (n / d) + 1 : ℕ) + e := by
    rw [← Int.lt_zpow_iff_log_lt (by norm_num) hpos, Nat.cast_ofNat, zpow_add₀ (by norm_num),
      zpow_natCast]
    refine mul_lt_mul_of_pos_right (hup.trans_le ?_) hpow
    exact_mod_cast Nat.succ_le_of_lt Nat.lt_log2_self
  push_cast at hlt
  omega

theorem log_mul_zpow {m : ℕ} (hm : 0 < m) (e : ℤ) :
    Int.log 2 ((m : ℚ) * 2 ^ e) = Nat.log2 m + e := by
  simpa using log_div_mul_zpow one_pos hm e

theorem lastBit_mul_zpow {m : ℕ} (hm : 0 < m) (e : ℤ) :
    lastBit (m * 2 ^ e) = max (Nat.log2 m + e - 52) (-1074) := by
  rw [lastBit, log_mul_zpow hm]

/-- Rounding as it is done on a significand: shifted to its last bit and rounded to an integer. -/
theorem roundMagnitude_div_mul_zpow (n : ℕ) {d : ℕ} (hd : 0 < d) (e : ℤ) (k : ℕ)
    (h : e + k = lastBit (n / d * 2 ^ e)) :
    roundMagnitude (n / d * 2 ^ e) = divRound .even n (d * 2 ^ k) * 2 ^ (e + k) := by
  have hquot : (n : ℚ) / d * 2 ^ e / 2 ^ (e + k) = n / (d * 2 ^ k : ℕ) := by
    rw [zpow_add₀ (by norm_num), zpow_natCast]
    push_cast
    field_simp
  rw [roundMagnitude, ← h, hquot, nearestNat_div _ _ (by positivity)]

/-- Numbers of 53 bits that end above the lowest bit are doubles as they are. -/
theorem roundMagnitude_eq_self {m : ℕ} {e : ℤ} (hm : m < 2 ^ 53) (he : -1074 ≤ e) :
    roundMagnitude (m * 2 ^ e) = m * 2 ^ e := by
  rcases Nat.eq_zero_or_pos m with rfl | hpos
  · simpa using roundMagnitude_zero
  have hlog : Nat.log2 m < 53 := (Nat.log2_lt hpos.ne').mpr hm
  obtain ⟨t, ht⟩ : ∃ t, lastBit (m * 2 ^ e) = t := ⟨_, rfl⟩
  obtain ⟨k, rfl⟩ : ∃ k : ℕ, e = t + k := by
    refine ⟨(e - t).toNat, ?_⟩
    rw [lastBit_mul_zpow hpos] at ht
    omega
  have hwhole : (m : ℚ) * 2 ^ (t + k : ℤ) = (m * 2 ^ k : ℕ) * 2 ^ t := by
    rw [zpow_add₀ (by norm_num), zpow_natCast]
    push_cast
    ring
  rw [roundMagnitude, ht, hwhole, mul_div_cancel_right₀ _ (by positivity), nearestNat_natCast]

end JourneyPages.Number
