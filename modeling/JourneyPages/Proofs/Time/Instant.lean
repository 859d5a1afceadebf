import JourneyPages.Time.Instant
import Mathlib.Data.Int.Order.Basic
import Mathlib.Order.Basic

/-!
Moving a point through time. A shift goes the way that its sign says, and longer shifts go further.
Outside leap seconds shifts add up as numbers do, so that one back and one forward cancel; out of a
leap second the way back and forward again may end up to a second later, never earlier.
-/
namespace JourneyPages.Instant
variable {t u v : Instant} {m n : Int}

instance (priority := low) : LinearOrder Instant :=
  LinearOrder.lift' ticks fun _ _ => Instant.ext

/-! The two clocks -/

theorem ticksAt_le_ticksAt_iff : ticksAt m ≤ ticksAt n ↔ m ≤ n := by
  unfold ticksAt
  omega

theorem not_isLeap_of_eq_ticksAt (h : t.ticks = ticksAt n) : ¬ t.IsLeap := by
  unfold IsLeap
  unfold ticksAt at h
  omega

theorem nanos_of_eq_ticksAt (h : t.ticks = ticksAt n) : t.nanos = n := by
  unfold nanos
  unfold ticksAt at h
  omega

theorem ticksAt_nanos (h : ¬ t.IsLeap) : ticksAt t.nanos = t.ticks := by
  unfold IsLeap at h
  unfold ticksAt nanos
  omega

theorem nanos_le_nanos_iff (ht : ¬ t.IsLeap) (hu : ¬ u.IsLeap) : t.nanos ≤ u.nanos ↔ t ≤ u := by
  rw [le_iff, ← ticksAt_nanos ht, ← ticksAt_nanos hu, ticksAt_le_ticksAt_iff]

/-! Shifts -/

theorem shift_of_not_isLeap (h : ¬ t.IsLeap) (n : Int) : t.shift n = ticksAt (t.nanos + n) :=
  if_pos (.inl h)

/-- What a shift can be: one on the clock of sixty seconds, one inside a leap second, or one forward
out of it. -/
theorem shift_cases (t : Instant) (n : Int) :
    (t.IsLeap → t.ticks % 61000000000 + n < 60000000000) ∧ t.shift n = ticksAt (t.nanos + n) ∨
      t.IsLeap ∧ 60000000000 ≤ t.ticks % 61000000000 + n ∧
        t.ticks % 61000000000 + n < 61000000000 ∧ t.shift n = t.ticks + n ∨
      t.IsLeap ∧ 61000000000 ≤ t.ticks % 61000000000 + n ∧
        t.shift n = ticksAt (t.nanos - 1000000000 + n) := by
  unfold shift
  split
  case isTrue h => exact .inl ⟨fun hleap => h.resolve_left (not_not_intro hleap), rfl⟩
  case isFalse h =>
    obtain ⟨hleap, hback⟩ := not_or.mp h
    have hleap := not_not.mp hleap
    split
    case isTrue hin => exact .inr (.inl ⟨hleap, by omega, hin, rfl⟩)
    case isFalse hout => exact .inr (.inr ⟨hleap, by omega, rfl⟩)

@[simp] theorem shift_zero (t : Instant) : t.shift 0 = t.ticks := by
  rcases t.shift_cases 0 with ⟨hback, h⟩ | ⟨-, -, -, h⟩ | ⟨hleap, hout, -⟩
  · have hnot : ¬ t.IsLeap := fun hleap => by
      have := hback hleap
      unfold IsLeap at hleap
      omega
    rw [h, Int.add_zero, ticksAt_nanos hnot]
  · rw [h, Int.add_zero]
  · omega

/-- The further a shift, the later where it ends. -/
theorem shift_lt_shift_iff : t.shift m < t.shift n ↔ m < n := by
  have hm := t.shift_cases m
  have hn := t.shift_cases n
  unfold IsLeap ticksAt nanos at hm hn
  omega

theorem shift_le_shift_iff : t.shift m ≤ t.shift n ↔ m ≤ n := by
  rw [← Int.not_lt, shift_lt_shift_iff, Int.not_lt]

theorem le_shift (h : 0 ≤ n) : t.ticks ≤ t.shift n := by
  rwa [← t.shift_zero, shift_le_shift_iff]

theorem shift_le (h : n ≤ 0) : t.shift n ≤ t.ticks := by
  rwa [← t.shift_zero, shift_le_shift_iff]

theorem lt_shift_iff : t.ticks < t.shift n ↔ 0 < n := by
  simpa using shift_lt_shift_iff (t := t) (m := 0) (n := n)

/-- Outside leap seconds the way back is the way forward again. -/
theorem shift_cancel (ht : ¬ t.IsLeap) (h : u.ticks = t.shift (-n)) :
    ¬ u.IsLeap ∧ u.shift n = t.ticks := by
  rw [shift_of_not_isLeap ht] at h
  have hu := not_isLeap_of_eq_ticksAt h
  refine ⟨hu, ?_⟩
  rw [shift_of_not_isLeap hu, nanos_of_eq_ticksAt h, Int.neg_add_cancel_right, ticksAt_nanos ht]

/-- The way back and forward again ends where it starts, or a second behind that if it starts in a
leap second. -/
theorem shift_of_shift_neg (hn : 0 ≤ n) (h : u.ticks = t.shift (-n)) :
    u.shift n = t.ticks ∨ t.IsLeap ∧ u.shift n = t.ticks + 1000000000 := by
  have hback := t.shift_cases (-n)
  have hforward := u.shift_cases n
  unfold IsLeap ticksAt nanos at hback hforward
  unfold IsLeap
  omega

/-- In a leap second it always ends a second behind that, if it leaves the leap second. -/
theorem shift_of_shift_neg_of_isLeap (ht : t.IsLeap) (hn : 1000000000 ≤ n)
    (h : u.ticks = t.shift (-n)) : u.shift n = t.ticks + 1000000000 := by
  have hback := t.shift_cases (-n)
  have hforward := u.shift_cases n
  unfold IsLeap ticksAt nanos at hback hforward
  unfold IsLeap at ht
  omega

/-- No leap second is a minute or more away from a point, either way. -/
theorem not_isLeap_of_shift (hn : 60000000000 ≤ n.natAbs) (h : u.ticks = t.shift n) :
    ¬ u.IsLeap := by
  rcases t.shift_cases n with ⟨-, hshift⟩ | ⟨hleap, hfrom, hto, -⟩ | ⟨-, -, hshift⟩
  · exact not_isLeap_of_eq_ticksAt (h.trans hshift)
  · unfold IsLeap at hleap
    omega
  · exact not_isLeap_of_eq_ticksAt (h.trans hshift)

/-- A minute on and at least as far back again ends no later than it starts. -/
theorem le_of_shift_shift_neg (hn : 60000000000 ≤ n) (hv : v.ticks = t.shift 60000000000)
    (hu : u.ticks = v.shift (-n)) : u ≤ t := by
  have hforward := t.shift_cases 60000000000
  have hback := v.shift_cases (-n)
  rw [le_iff]
  unfold IsLeap ticksAt nanos at hforward hback
  omega

/-! Differences -/

/-- A difference is that of the clocks of sixty seconds, but for the leap seconds at its ends. -/
theorem natAbs_nanosSince_sub_le (t u : Instant) :
    (t.nanosSince u - (t.nanos - u.nanos)).natAbs ≤ 1000000000 := by
  unfold nanosSince
  split <;> split <;> omega

/-- A difference forwards is negative only from a leap second over midnight, and less than a second
then. -/
theorem lt_nanosSince (h : u ≤ t) : -1000000000 < t.nanosSince u := by
  rw [le_iff] at h
  unfold nanosSince IsLeap minuteOfDay nanos
  split <;> split <;> omega

theorem nanosSince_le (h : u ≤ t) : t.nanosSince u ≤ t.ticks - u.ticks := by
  rw [le_iff] at h
  unfold nanosSince IsLeap minuteOfDay nanos
  split <;> split <;> omega

theorem nanosSince_of_not_isLeap (ht : ¬ t.IsLeap) (hu : ¬ u.IsLeap) :
    t.nanosSince u = t.nanos - u.nanos := by
  rw [nanosSince, if_neg fun h => hu h.1, if_neg fun h => ht h.1, Int.add_zero, Int.sub_zero]

end JourneyPages.Instant
