import JourneyPages.Time.Span

/-!
Points in time, exact to the nanosecond, inside the years that a calendar date can have here.

Any minute can end in a leap second, its sixty-first, as a time in a document can say so and there
is no table of the minutes that really had one. Points are therefore counted on a clock that has
room for it in every minute. Sums and differences count sixty seconds to the minute, and the only
leap seconds they take notice of are those at their own ends. Forward out of a leap second they
start in the second before it: four hours after 08:00:60 it is 12:00:59. Back out of it they start
in the second behind it: three hours before 08:00:60 it is 05:01:00, and three hours after that
08:01:00. Moving a point past either end of time has no result; the distance of two points always
has one.
-/
namespace JourneyPages

/-- Nanoseconds on a clock with sixty-one seconds in every minute. It starts at
1970-01-01T00:00:00Z; instants are from the start of the year -262143 to the end of the year
262142. -/
@[ext] structure Instant where
  ticks : Int
  inRange : -8473511249280000000000 ≤ ticks ∧ ticks ≤ 8347104658079999999999
  deriving DecidableEq

namespace Instant

instance : LE Instant := ⟨fun a b => a.ticks ≤ b.ticks⟩
instance : LT Instant := ⟨fun a b => a.ticks < b.ticks⟩
instance (a b : Instant) : Decidable (a ≤ b) := inferInstanceAs (Decidable (a.ticks ≤ b.ticks))
instance (a b : Instant) : Decidable (a < b) := inferInstanceAs (Decidable (a.ticks < b.ticks))

theorem le_iff {a b : Instant} : a ≤ b ↔ a.ticks ≤ b.ticks := Iff.rfl
theorem lt_iff {a b : Instant} : a < b ↔ a.ticks < b.ticks := Iff.rfl

def ofTicks? (n : Int) : Option Instant :=
  if h : -8473511249280000000000 ≤ n ∧ n ≤ 8347104658079999999999 then some ⟨n, h⟩ else none

theorem ofTicks?_eq_some_iff {n : Int} {t : Instant} : ofTicks? n = some t ↔ t.ticks = n := by
  unfold ofTicks?
  split
  · simp [Instant.ext_iff, eq_comm]
  · constructor
    · simp
    · rintro rfl; exact absurd t.inRange ‹_›

@[simp] theorem ofTicks?_ticks (t : Instant) : ofTicks? t.ticks = some t :=
  ofTicks?_eq_some_iff.mpr rfl

/-- The point is in the leap second of its minute. -/
def IsLeap (t : Instant) : Prop := 60000000000 ≤ t.ticks % 61000000000

instance (t : Instant) : Decidable t.IsLeap :=
  inferInstanceAs (Decidable (60000000000 ≤ t.ticks % 61000000000))

/-- Nanoseconds on a clock with sixty seconds in every minute. On it, a leap second falls on the
first second of the next minute. -/
def nanos (t : Instant) : Int := t.ticks / 61000000000 * 60000000000 + t.ticks % 61000000000

/-- The tick at which the clock of sixty seconds shows `n`, in no leap second. -/
def ticksAt (n : Int) : Int := n / 60000000000 * 61000000000 + n % 60000000000

/-- Minutes since midnight. -/
def minuteOfDay (t : Instant) : Int := t.ticks / 61000000000 % 1440

/-- The tick `n` nanoseconds after a point, or before it if `n` is negative. Out of a leap second,
the way forward starts in the second before it, and the way back in the second behind it. -/
def shift (t : Instant) (n : Int) : Int :=
  if ¬ t.IsLeap ∨ t.ticks % 61000000000 + n < 60000000000 then ticksAt (t.nanos + n)
  else if t.ticks % 61000000000 + n < 61000000000 then t.ticks + n
  else ticksAt (t.nanos - 1000000000 + n)

/-- The point a span later, if there is one. -/
def add? (t : Instant) (s : Span) : Option Instant := ofTicks? (t.shift s.nanos)

/-- The point a span earlier, if there is one. -/
def sub? (t : Instant) (s : Span) : Option Instant := ofTicks? (t.shift (-s.nanos))

theorem add?_eq_some_iff {t u : Instant} {s : Span} :
    t.add? s = some u ↔ u.ticks = t.shift s.nanos := ofTicks?_eq_some_iff

theorem sub?_eq_some_iff {t u : Instant} {s : Span} :
    t.sub? s = some u ↔ u.ticks = t.shift (-s.nanos) := ofTicks?_eq_some_iff

/-- The nanoseconds from `earlier` to `t`. A leap second at either of them counts if the clock shows
a later minute of the day at the other one, whatever their dates. -/
def nanosSince (t earlier : Instant) : Int :=
  t.nanos - earlier.nanos +
    (if earlier.IsLeap ∧ earlier.minuteOfDay < t.minuteOfDay then 1000000000 else 0) -
    (if t.IsLeap ∧ t.minuteOfDay < earlier.minuteOfDay then 1000000000 else 0)

/-- The span from `earlier` to `t`. -/
def since (t earlier : Instant) : Span :=
  ⟨t.nanosSince earlier, by
    have := t.inRange
    have := earlier.inRange
    unfold nanosSince nanos
    split <;> split <;> omega⟩

@[simp] theorem since_nanos (t u : Instant) : (t.since u).nanos = t.nanosSince u := rfl

end Instant
end JourneyPages
