import JourneyPages.Proofs.Number.Significand

/-!
Arithmetic on doubles as arithmetic on the numbers that they stand for. Products, quotients and sums
of finite doubles are the exact ones, rounded and held to the range of doubles, so that multiplying
by a double that is not negative and adding a finite one keep the order.
-/
namespace JourneyPages.Number.Binary64

open Float.Model (Format UnpackedFloat totalExponent)
open Float.Model.UnpackedFloat

/-! Values -/

theorem signed_mul_signed (a b : Bool) (q r : ℚ) :
    signed a q * signed b r = signed (a ^^ b) (q * r) := by
  cases a <;> cases b <;> simp

theorem signed_div_signed (a b : Bool) (q r : ℚ) :
    signed a q / signed b r = signed (a ^^ b) (q / r) := by
  cases a <;> cases b <;> simp [neg_div, div_neg]

/-- The number that a double stands for. The infinities stand for the least numbers that are too
large, and what is not a number for zero. -/
def value : Binary64 → ℚ
  | .nan => 0
  | .infinite s => signed s overflow
  | .finite s m e => signed s (m * 2 ^ e)

/-- A number held to the range of doubles. -/
def hold (q : ℚ) : ℚ := max (-overflow) (min q overflow)

theorem hold_mono {q r : ℚ} (h : q ≤ r) : hold q ≤ hold r :=
  max_le_max le_rfl (min_le_min h le_rfl)

theorem overflow_pos : 0 < overflow := zpow_pos (by norm_num) _

theorem signed_lt_overflow (s : Bool) {q : ℚ} (h : 0 ≤ q) (hlt : q < overflow) :
    -overflow < signed s q ∧ signed s q < overflow := by
  have hneg := neg_neg_of_pos overflow_pos
  cases s
  · exact ⟨hneg.trans_le h, hlt⟩
  · exact ⟨neg_lt_neg hlt, (neg_nonpos.mpr h).trans_lt overflow_pos⟩

theorem hold_of_lt (s : Bool) {q : ℚ} (h : 0 ≤ q) (hlt : q < overflow) :
    hold (signed s q) = signed s q := by
  obtain ⟨hlow, hhigh⟩ := signed_lt_overflow s h hlt
  rw [hold, min_eq_left hhigh.le, max_eq_right hlow.le]

theorem hold_of_le (s : Bool) {q : ℚ} (h : overflow ≤ q) :
    hold (signed s q) = signed s overflow := by
  have hpos := overflow_pos
  cases s
  · change max (-overflow) (min q overflow) = overflow
    rw [min_eq_right h, max_eq_right (by linarith)]
  · change max (-overflow) (min (-q) overflow) = -overflow
    rw [min_eq_left (by linarith), max_eq_left (by linarith)]

theorem roundDouble_signed (s : Bool) {q : ℚ} (h : 0 ≤ q) :
    roundDouble (signed s q) = signed s (roundMagnitude q) :=
  bySign_signed roundMagnitude_zero s h

/-- Numbers of 53 bits whose exponents can be packed are within the range of doubles. -/
theorem lt_overflow {m : Nat} {e : Int} (h : m < 2 ^ 53) (he : e ≤ 971) :
    (m : ℚ) * 2 ^ e < overflow := by
  have hm : (m : ℚ) < 2 ^ (53 : ℤ) := by exact_mod_cast h
  calc (m : ℚ) * 2 ^ e < 2 ^ (53 : ℤ) * 2 ^ e := mul_lt_mul_of_pos_right hm (by positivity)
    _ = 2 ^ (53 + e) := (zpow_add₀ (by norm_num) _ _).symm
    _ ≤ overflow := zpow_le_zpow_right₀ (by norm_num) (by omega)

/-- Exponents too large to be packed are those of numbers out of range. -/
theorem Proper.overflow_le {m : Nat} {e : Int} (h : Proper m e) (he : 971 < e) :
    overflow ≤ m * 2 ^ e := by
  have hm : (2 : ℚ) ^ (52 : ℤ) ≤ m := by
    rcases h.normal with hm | hm
    · exact_mod_cast hm
    · omega
  calc overflow ≤ 2 ^ (52 + e) := zpow_le_zpow_right₀ (by norm_num) (by omega)
    _ = 2 ^ (52 : ℤ) * 2 ^ e := zpow_add₀ (by norm_num) _ _
    _ ≤ m * 2 ^ e := mul_le_mul_of_nonneg_right hm (by positivity)

/-! Operations, before their results are packed -/

/-- Unpacked doubles with a proper significand, and zero. -/
def Canonical (u : Float.Model.UnpackedFloat) : Prop :=
  ∃ s m e, ofUnpacked u = .finite s m e ∧ Proper m e

/-- Results that are rounded as those of operations have to be. -/
structure Rounds (u : Float.Model.UnpackedFloat) (q : ℚ) : Prop where
  canonical : Canonical u
  value_eq : value (ofUnpacked u) = roundDouble q

theorem Canonical.rounds {u : Float.Model.UnpackedFloat} (h : Canonical u) :
    Rounds u (value (ofUnpacked u)) := by
  obtain ⟨s, m, e, hu, hproper⟩ := h
  refine ⟨⟨s, m, e, hu, hproper⟩, ?_⟩
  rw [hu, value, roundDouble_signed s (by positivity), roundMagnitude_eq_self hproper.lt hproper.le]

theorem canonical_zero (s : Sign) : Canonical (.zero s) :=
  ⟨isNegative s, 0, -1074, rfl, by norm_num, le_rfl, .inr rfl⟩

@[simp] theorem value_zero (s : Sign) : value (ofUnpacked (.zero s)) = 0 := by
  simp [ofUnpacked, value, signed]

theorem rounds_zero (s : Sign) : Rounds (.zero s) 0 := by
  simpa using (canonical_zero s).rounds

theorem Canonical.zero_or_finite {u : Float.Model.UnpackedFloat} (h : Canonical u) :
    (∃ s, u = .zero s) ∨ ∃ s m e hm, u = .finite s m e hm ∧ Proper m e := by
  obtain ⟨s', m', e', hu, hproper⟩ := h
  cases u with
  | notANumber => cases hu
  | infinity => cases hu
  | zero s => exact .inl ⟨s, rfl⟩
  | finite s m e hm =>
    cases hu
    exact .inr ⟨s, _, _, hm, rfl, hproper⟩

theorem rounds_cutOff (s : Sign) {n d : Nat} (hn : 0 < n) (hd : 0 < d) {acc : Accuracy}
    (hacc : ExtendedMantissa.ofMantissaAndAccuracy (n / d) acc = cutOff n d) {e : Int}
    (he : e ≤ lastBit (n / d * 2 ^ e)) :
    Rounds (roundWithAccuracy Format.binary64 s (n / d) e acc)
      (signed (isNegative s) (n / d * 2 ^ e)) := by
  obtain ⟨m', e', hproper, hvalue, hround⟩ := roundWithAccuracy_eq s hn hd hacc he
  have hpos : (0 : ℚ) ≤ n / d * 2 ^ e := by positivity
  rw [hround]
  by_cases hzero : m' = 0
  · rw [dif_pos hzero]
    refine ⟨canonical_zero s, ?_⟩
    rw [roundDouble_signed _ hpos, ← hvalue, hzero]
    simp [signed]
  · rw [dif_neg hzero]
    refine ⟨⟨isNegative s, m', e', rfl, hproper⟩, ?_⟩
    rw [roundDouble_signed _ hpos, ← hvalue]
    rfl

theorem rounds_roundWithAccuracy (s : Sign) {m : Nat} (hm : 0 < m) {e : Int}
    (he : e ≤ lastBit (m * 2 ^ e)) :
    Rounds (roundWithAccuracy Format.binary64 s m e .exact)
      (signed (isNegative s) (m * 2 ^ e)) := by
  have hwhole : (m : ℚ) / (1 : Nat) = m := by rw [Nat.cast_one, div_one]
  have hexact : ExtendedMantissa.ofMantissaAndAccuracy (m / 1) .exact = cutOff m 1 := by
    rw [Nat.div_one, cutOff_one]
  have h := rounds_cutOff s hm Nat.one_pos hexact (e := e) (by rwa [hwhole])
  rwa [hwhole, Nat.div_one] at h

/-- Spare zeros change neither the number nor the exponent that it is rounded to. -/
theorem decreaseExponent_eq (m : Nat) {e t : Int} (h : t ≤ e) :
    ∃ n, decreaseExponent m e t = (n, t) ∧ (n : ℚ) * 2 ^ t = m * 2 ^ e := by
  obtain ⟨k, rfl⟩ : ∃ k : ℕ, e = t + k := ⟨(e - t).toNat, by omega⟩
  refine ⟨m * 2 ^ k, ?_, ?_⟩
  · have hk : (t + k - t).toNat = k := by omega
    rw [decreaseExponent, hk, Nat.shiftLeft_eq]
    simp
  · rw [zpow_add₀ (by norm_num), zpow_natCast]
    push_cast
    ring

theorem rounds_round (s : Sign) {m : Nat} (hm : 0 < m) (e : Int) :
    Rounds (UnpackedFloat.round Format.binary64 s m e) (signed (isNegative s) (m * 2 ^ e)) := by
  unfold UnpackedFloat.round
  rw [targetExponent_eq_lastBit hm]
  by_cases he : e ≤ lastBit (m * 2 ^ e)
  · have hstay : (e - lastBit (m * 2 ^ e)).toNat = 0 := by omega
    simp only [decreaseExponent, hstay]
    simpa using rounds_roundWithAccuracy s hm he
  · obtain ⟨n, hn, hvalue⟩ := decreaseExponent_eq m (le_of_not_ge he)
    have hpos : 0 < n := by
      rcases Nat.eq_zero_or_pos n with rfl | hpos
      · have hne : (m : ℚ) * 2 ^ e ≠ 0 := by positivity
        exact absurd hvalue.symm (by simpa using hne)
      · exact hpos
    have h := rounds_roundWithAccuracy s hpos (e := lastBit (m * 2 ^ e)) (by rw [hvalue])
    rw [hvalue] at h
    simpa only [hn] using h

theorem rounds_normalize (n : Int) (e : Int) (s : Sign) :
    Rounds (UnpackedFloat.normalize Format.binary64 n e s) (n * 2 ^ e) := by
  unfold UnpackedFloat.normalize
  rcases Int.lt_trichotomy n 0 with h | rfl | h
  · obtain ⟨m, rfl⟩ : ∃ m : ℕ, n = -m := ⟨n.natAbs, by omega⟩
    have hcompare : compare (-(m : Int)) 0 = .lt := Int.compare_eq_lt.mpr h
    simpa [hcompare, signed, isNegative] using rounds_round .negative (m := m) (by omega) e
  · simpa using rounds_zero s
  · obtain ⟨m, rfl⟩ : ∃ m : ℕ, n = m := ⟨n.toNat, by omega⟩
    have hcompare : compare (m : Int) 0 = .gt := Int.compare_eq_gt.mpr h
    simpa [hcompare, signed, isNegative] using rounds_round .positive (m := m) (by omega) e

/-- The exact product of two doubles has bits to spare, unless it is below the lowest bit. -/
theorem le_lastBit_mul {m n : Nat} {e t : Int} (hm : 0 < m) (hn : 0 < n) (h : Proper m e)
    (h' : Proper n t) : e + t ≤ lastBit ((m * n : Nat) * 2 ^ (e + t)) := by
  have hpos := Nat.mul_pos hm hn
  rw [lastBit_mul_zpow hpos]
  rcases h.normal with hbig | rfl
  · have hlog := (Nat.le_log2 (Nat.ne_of_gt hpos)).mpr (hbig.trans (Nat.le_mul_of_pos_right m hn))
    omega
  rcases h'.normal with hbig | rfl
  · have hlog := (Nat.le_log2 (Nat.ne_of_gt hpos)).mpr (hbig.trans (Nat.le_mul_of_pos_left n hm))
    omega
  · omega

theorem isNegative_mul (s s' : Sign) : isNegative (s * s') = (isNegative s ^^ isNegative s') := by
  cases s <;> cases s' <;> rfl

theorem rounds_mul {u v : Float.Model.UnpackedFloat} (hu : Canonical u) (hv : Canonical v) :
    Rounds (UnpackedFloat.mul Format.binary64 u v)
      (value (ofUnpacked u) * value (ofUnpacked v)) := by
  rcases hu.zero_or_finite with ⟨s, rfl⟩ | ⟨s, m, e, hm, rfl, hproper⟩
  · rw [value_zero, zero_mul]
    rcases hv.zero_or_finite with ⟨s', rfl⟩ | ⟨s', n, t, hn, rfl, -⟩ <;> exact rounds_zero (s * s')
  rcases hv.zero_or_finite with ⟨s', rfl⟩ | ⟨s', n, t, hn, rfl, hproper'⟩
  · rw [value_zero, mul_zero]
    exact rounds_zero (s * s')
  · have hvalue : value (ofUnpacked (.finite s m e hm)) * value (ofUnpacked (.finite s' n t hn)) =
        signed (isNegative (s * s')) (((m * n : Nat) : ℚ) * 2 ^ (e + t)) := by
      rw [ofUnpacked, ofUnpacked, value, value, signed_mul_signed, isNegative_mul,
        zpow_add₀ (by norm_num), Nat.cast_mul, mul_mul_mul_comm]
    rw [hvalue]
    exact rounds_roundWithAccuracy (s * s') (Nat.mul_pos hm hn)
      (le_lastBit_mul hm hn hproper hproper')

theorem isNegative_div (s s' : Sign) : isNegative (s / s') = (isNegative s ^^ isNegative s') := by
  cases s <;> cases s' <;> rfl

theorem rounds_div {u v : Float.Model.UnpackedFloat} (hu : Canonical u) (hv : Canonical v)
    (hzero : value (ofUnpacked v) ≠ 0) :
    Rounds (UnpackedFloat.div Format.binary64 u v)
      (value (ofUnpacked u) / value (ofUnpacked v)) := by
  rcases hv.zero_or_finite with ⟨s', rfl⟩ | ⟨s', n, t, hn, rfl, -⟩
  · exact absurd (value_zero s') hzero
  rcases hu.zero_or_finite with ⟨s, rfl⟩ | ⟨s, m, e, hm, rfl, -⟩
  · rw [value_zero, zero_div]
    exact rounds_zero (s / s')
  · obtain ⟨k, r, hcore, hexact, hspare⟩ := divCore_eq hm hn e t
    have hvalue : value (ofUnpacked (.finite s m e hm)) / value (ofUnpacked (.finite s' n t hn)) =
        signed (isNegative (s / s')) (((m * 2 ^ k : Nat) : ℚ) / n * 2 ^ r) := by
      rw [ofUnpacked, ofUnpacked, value, value, signed_div_signed, isNegative_div, hexact]
    rw [hvalue]
    simpa only [UnpackedFloat.div, hcore] using
      rounds_cutOff (s / s') (Nat.mul_pos hm (Nat.two_pow_pos k)) hn (cutOff_eq _ hn).symm
        (hexact ▸ hspare)

theorem signed_isNegative_mul (s : Sign) (m : Nat) (q : ℚ) :
    signed (isNegative s) (m * q) = (s.apply m : Int) * q := by
  cases s <;> simp [signed, isNegative, Sign.apply]

theorem rounds_add {u v : Float.Model.UnpackedFloat} (hu : Canonical u) (hv : Canonical v) :
    Rounds (UnpackedFloat.add Format.binary64 u v)
      (value (ofUnpacked u) + value (ofUnpacked v)) := by
  rcases hu.zero_or_finite with ⟨s, rfl⟩ | ⟨s, m, e, hm, rfl, hproper⟩
  · rw [value_zero, zero_add]
    rcases hv.zero_or_finite with ⟨s', rfl⟩ | ⟨s', n, t, hn, rfl, -⟩
    · rw [value_zero]
      cases s <;> cases s' <;> exact rounds_zero _
    · exact hv.rounds
  rcases hv.zero_or_finite with ⟨s', rfl⟩ | ⟨s', n, t, hn, rfl, hproper'⟩
  · rw [value_zero, add_zero]
    exact hu.rounds
  · obtain ⟨m', hm', hvalue⟩ := decreaseExponent_eq m (min_le_left e t)
    obtain ⟨n', hn', hvalue'⟩ := decreaseExponent_eq n (min_le_right e t)
    have hsum : value (ofUnpacked (.finite s m e hm)) + value (ofUnpacked (.finite s' n t hn)) =
        (s.apply m' + s'.apply n' : Int) * 2 ^ min e t := by
      rw [ofUnpacked, ofUnpacked, value, value, ← hvalue, ← hvalue', signed_isNegative_mul,
        signed_isNegative_mul, Int.cast_add, add_mul]
    rw [hsum]
    simpa only [UnpackedFloat.add, hm', hn'] using
      rounds_normalize (s.apply m' + s'.apply n') (min e t) .positive

theorem rounds_neg {u : Float.Model.UnpackedFloat} (hu : Canonical u) :
    Rounds u.neg (-value (ofUnpacked u)) := by
  have hcanonical : Canonical u.neg := by
    rcases hu.zero_or_finite with ⟨s, rfl⟩ | ⟨s, m, e, hm, rfl, hproper⟩
    · exact canonical_zero (-s)
    · exact ⟨isNegative (-s), m, e, rfl, hproper⟩
  have hvalue : value (ofUnpacked u.neg) = -value (ofUnpacked u) := by
    rcases hu.zero_or_finite with ⟨s, rfl⟩ | ⟨s, m, e, hm, rfl, -⟩
    · rw [UnpackedFloat.neg, value_zero, value_zero, neg_zero]
    · cases s
      · exact (neg_neg _).symm
      · rfl
  rw [← hvalue]
  exact hcanonical.rounds

/-! Floats -/

variable {x y z : Float}

theorem isFinite_iff : x.isFinite = true ↔ ∃ s m e, ofFloat x = .finite s m e := by
  change x.toModel.unpack.isFinite = true ↔ _
  rw [ofFloat_eq_ofUnpacked]
  cases x.toModel.unpack <;> simp [UnpackedFloat.isFinite, ofUnpacked]

theorem canonical_unpack (h : x.isFinite = true) : Canonical x.toModel.unpack := by
  obtain ⟨s, m, e, hread⟩ := isFinite_iff.mp h
  exact ⟨s, m, e, (ofFloat_eq_ofUnpacked x).symm.trans hread, (proper_of_ofFloat hread).1⟩

/-- The values of finite doubles are within the range. -/
theorem value_lt_overflow (h : x.isFinite = true) :
    -overflow < value (ofFloat x) ∧ value (ofFloat x) < overflow := by
  obtain ⟨s, m, e, hread⟩ := isFinite_iff.mp h
  have hpos : (0 : ℚ) ≤ m * 2 ^ e := by positivity
  have hlt := lt_overflow (proper_of_ofFloat hread).1.lt (proper_of_ofFloat hread).2
  rw [hread]
  exact signed_lt_overflow s hpos hlt

/-- Among what is a number, only the infinities are at the ends of the range. -/
theorem infinite_or_isFinite (h : ofFloat x ≠ .nan) :
    ofFloat x = .infinite true ∧ value (ofFloat x) = -overflow ∨
      ofFloat x = .infinite false ∧ value (ofFloat x) = overflow ∨ x.isFinite = true := by
  cases hx : ofFloat x with
  | nan => exact absurd hx h
  | infinite s =>
    cases s
    · exact .inr (.inl ⟨rfl, rfl⟩)
    · exact .inl ⟨rfl, rfl⟩
  | finite s m e => exact .inr (.inr (isFinite_iff.mpr ⟨s, m, e, hx⟩))

theorem value_le_overflow (h : ofFloat x ≠ .nan) :
    -overflow ≤ value (ofFloat x) ∧ value (ofFloat x) ≤ overflow := by
  have hneg := neg_le_self overflow_pos.le
  rcases infinite_or_isFinite h with ⟨-, hv⟩ | ⟨-, hv⟩ | hfinite
  · exact ⟨hv.ge, hv.trans_le hneg⟩
  · exact ⟨hneg.trans hv.ge, hv.le⟩
  · exact ⟨(value_lt_overflow hfinite).1.le, (value_lt_overflow hfinite).2.le⟩

/-- Packed results are held to the range of doubles. -/
theorem Rounds.pack {u : Float.Model.UnpackedFloat} {q : ℚ} (h : Rounds u q) :
    ofFloat (Float.ofModel (Float.Model.pack u)) ≠ .nan ∧
      value (ofFloat (Float.ofModel (Float.Model.pack u))) = hold (roundDouble q) := by
  obtain ⟨s, m, e, hu, hproper⟩ := h.canonical
  have hpos : (0 : ℚ) ≤ m * 2 ^ e := by positivity
  rw [ofFloat_pack hu hproper, ← h.value_eq, hu]
  split
  case isTrue hsmall =>
    exact ⟨by simp, (hold_of_lt s hpos (lt_overflow hproper.lt hsmall)).symm⟩
  case isFalse hlarge =>
    exact ⟨by simp, (hold_of_le s (hproper.overflow_le (by omega))).symm⟩

theorem value_mul (hx : x.isFinite = true) (hy : y.isFinite = true) :
    ofFloat (x * y) ≠ .nan ∧
      value (ofFloat (x * y)) = hold (roundDouble (value (ofFloat x) * value (ofFloat y))) := by
  rw [ofFloat_eq_ofUnpacked x, ofFloat_eq_ofUnpacked y]
  exact (rounds_mul (canonical_unpack hx) (canonical_unpack hy)).pack

theorem value_div (hx : x.isFinite = true) (hy : y.isFinite = true)
    (hzero : value (ofFloat y) ≠ 0) :
    ofFloat (x / y) ≠ .nan ∧
      value (ofFloat (x / y)) = hold (roundDouble (value (ofFloat x) / value (ofFloat y))) := by
  rw [ofFloat_eq_ofUnpacked y] at hzero
  rw [ofFloat_eq_ofUnpacked x, ofFloat_eq_ofUnpacked y]
  exact (rounds_div (canonical_unpack hx) (canonical_unpack hy) hzero).pack

theorem value_add (hx : x.isFinite = true) (hy : y.isFinite = true) :
    ofFloat (x + y) ≠ .nan ∧
      value (ofFloat (x + y)) = hold (roundDouble (value (ofFloat x) + value (ofFloat y))) := by
  rw [ofFloat_eq_ofUnpacked x, ofFloat_eq_ofUnpacked y]
  exact (rounds_add (canonical_unpack hx) (canonical_unpack hy)).pack

theorem unpack_of_infinite {s : Bool} (h : ofFloat x = .infinite s) :
    x.toModel.unpack = .infinity (if s then .negative else .positive) := by
  rw [ofFloat_eq_ofUnpacked] at h
  cases hx : x.toModel.unpack with
  | infinity sign =>
    rw [hx, ofUnpacked, Binary64.infinite.injEq] at h
    subst h
    cases sign <;> rfl
  | _ =>
    rw [hx] at h
    cases h

/-- An infinity swallows what is finite. -/
theorem add_infinite (hx : x.isFinite = true) {s : Bool} (hy : ofFloat y = .infinite s) :
    ofFloat (x + y) = .infinite s := by
  change ofFloat (Float.ofModel (Float.Model.pack
    (UnpackedFloat.add Format.binary64 x.toModel.unpack y.toModel.unpack))) = _
  rw [unpack_of_infinite hy]
  rcases (canonical_unpack hx).zero_or_finite with ⟨_, hu⟩ | ⟨_, _, _, _, hu, -⟩ <;>
    (rw [hu]; cases s <;> exact ofFloat_pack_infinity _)

/-- An infinity stays as it is when what is finite is added. -/
theorem infinite_add {s : Bool} (hx : ofFloat x = .infinite s) (hy : y.isFinite = true) :
    ofFloat (x + y) = .infinite s := by
  change ofFloat (Float.ofModel (Float.Model.pack
    (UnpackedFloat.add Format.binary64 x.toModel.unpack y.toModel.unpack))) = _
  rw [unpack_of_infinite hx]
  rcases (canonical_unpack hy).zero_or_finite with ⟨_, hv⟩ | ⟨_, _, _, _, hv, -⟩ <;>
    (rw [hv]; cases s <;> exact ofFloat_pack_infinity _)

/-- Multiplying by a double that is not negative keeps the order. -/
theorem value_mul_mono (hx : x.isFinite = true) (hpos : 0 ≤ value (ofFloat x))
    (hy : y.isFinite = true) (hz : z.isFinite = true)
    (h : value (ofFloat y) ≤ value (ofFloat z)) :
    value (ofFloat (x * y)) ≤ value (ofFloat (x * z)) := by
  rw [(value_mul hx hy).2, (value_mul hx hz).2]
  exact hold_mono (roundDouble_mono (mul_le_mul_of_nonneg_left h hpos))

theorem add_ne_nan (hx : x.isFinite = true) (hy : ofFloat y ≠ .nan) : ofFloat (x + y) ≠ .nan := by
  rcases infinite_or_isFinite hy with ⟨h, -⟩ | ⟨h, -⟩ | hfinite
  · simp [add_infinite hx h]
  · simp [add_infinite hx h]
  · exact (value_add hx hfinite).1

/-- Adding a finite double keeps the order, also that of infinities. -/
theorem value_add_mono (hx : x.isFinite = true) (hy : ofFloat y ≠ .nan) (hz : ofFloat z ≠ .nan)
    (h : value (ofFloat y) ≤ value (ofFloat z)) :
    value (ofFloat (x + y)) ≤ value (ofFloat (x + z)) := by
  rcases infinite_or_isFinite hy with ⟨hinf, -⟩ | ⟨hinf, hv⟩ | hfinite
  · -- The sum is at the lower end.
    rw [add_infinite hx hinf]
    exact (value_le_overflow (add_ne_nan hx hz)).1
  · rcases infinite_or_isFinite hz with ⟨-, hv'⟩ | ⟨hinf', -⟩ | hfinite'
    · linarith [overflow_pos]
    · rw [add_infinite hx hinf, add_infinite hx hinf']
    · linarith [(value_lt_overflow hfinite').2]
  · rcases infinite_or_isFinite hz with ⟨-, hv'⟩ | ⟨hinf', -⟩ | hfinite'
    · linarith [(value_lt_overflow hfinite).1]
    · rw [add_infinite hx hinf']
      exact (value_le_overflow (add_ne_nan hx hy)).2
    · rw [(value_add hx hfinite).2, (value_add hx hfinite').2]
      exact hold_mono (roundDouble_mono (add_le_add_right h _))

/-! Integers -/

/-- Results that are integers of 53 bits are exact. -/
theorem exact_of_natCast {n : Nat} (h : n < 2 ^ 53) {s : Bool} {q : ℚ} (hq : q = signed s (n : ℚ))
    (hx : ofFloat x ≠ .nan ∧ value (ofFloat x) = hold (roundDouble q)) :
    x.isFinite = true ∧ value (ofFloat x) = signed s (n : ℚ) := by
  have hpos : (0 : ℚ) ≤ n := Nat.cast_nonneg n
  have hself := roundMagnitude_eq_self h (show (-1074 : ℤ) ≤ 0 by norm_num)
  have hlt := lt_overflow h (show (0 : ℤ) ≤ 971 by norm_num)
  rw [zpow_zero, mul_one] at hself hlt
  rw [hq, roundDouble_signed s hpos, hself, hold_of_lt s hpos hlt] at hx
  obtain ⟨hlow, hhigh⟩ := signed_lt_overflow s hpos hlt
  rw [← hx.2] at hlow hhigh
  refine ⟨?_, hx.2⟩
  rcases infinite_or_isFinite hx.1 with ⟨-, hv⟩ | ⟨-, hv⟩ | hfinite
  · exact absurd hv hlow.ne'
  · exact absurd hv hhigh.ne
  · exact hfinite

theorem value_ofNat {n : Nat} (h : n < 2 ^ 53) :
    (Float.ofNat n).isFinite = true ∧ value (ofFloat (Float.ofNat n)) = n := by
  have hword : n.toUInt64.toNat = n := by
    rw [Nat.toUInt64, UInt64.toNat_ofNat']
    exact Nat.mod_eq_of_lt (by omega)
  obtain ⟨hfinite, hvalue⟩ := exact_of_natCast (x := n.toUInt64.toFloat) h (s := false)
    (by rw [hword]; simp) (rounds_normalize n.toUInt64.toNat 0 .positive).pack
  -- Integers are read as decimal numbers with no digits behind the point.
  have hone : ofFloat (Float.ofBits 0x3FF0000000000000) = .finite false (2 ^ 52) (-52) := by decide
  have hscale : Float.ofNat n = n.toUInt64.toFloat * Float.ofBits 0x3FF0000000000000 := by
    change Float.ofScientific n false 0 = _
    rw [Float.ofScientific, dif_pos ⟨h, by decide⟩]
    rfl
  rw [hscale]
  refine exact_of_natCast h (s := false) ?_ (value_mul hfinite (isFinite_iff.mpr ⟨_, _, _, hone⟩))
  rw [hvalue, hone]
  norm_num [value]

theorem value_floatOfInt {n : Int} (h : n.natAbs < 2 ^ 53) :
    (floatOfInt n).isFinite = true ∧ value (ofFloat (floatOfInt n)) = n := by
  cases n with
  | ofNat n => exact value_ofNat h
  | negSucc n =>
    obtain ⟨hfinite, hvalue⟩ := value_ofNat h
    obtain ⟨hneg, hvalue'⟩ := exact_of_natCast h (x := floatOfInt (.negSucc n)) (s := true)
      (by rw [← ofFloat_eq_ofUnpacked, hvalue]; rfl) (rounds_neg (canonical_unpack hfinite)).pack
    exact ⟨hneg, hvalue'.trans (by simp [Int.cast_negSucc])⟩

end JourneyPages.Number.Binary64
