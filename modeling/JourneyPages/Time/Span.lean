import JourneyPages.Text.Digits

/-!
Lengths of time, exact to the nanosecond and bounded on both sides. Arithmetic that leaves the
bounds has no result.
-/
namespace JourneyPages

/-- A length of time in nanoseconds, forwards or backwards, of at most 2^63 - 1 milliseconds. -/
@[ext] structure Span where
  nanos : Int
  inRange : -9223372036854775807000000 ≤ nanos ∧ nanos ≤ 9223372036854775807000000
  deriving DecidableEq

namespace Span

/-- The longest span. -/
def limit : Int := 9223372036854775807000000

instance : LE Span := ⟨fun a b => a.nanos ≤ b.nanos⟩
instance : LT Span := ⟨fun a b => a.nanos < b.nanos⟩
instance (a b : Span) : Decidable (a ≤ b) := inferInstanceAs (Decidable (a.nanos ≤ b.nanos))
instance (a b : Span) : Decidable (a < b) := inferInstanceAs (Decidable (a.nanos < b.nanos))

theorem le_iff {a b : Span} : a ≤ b ↔ a.nanos ≤ b.nanos := Iff.rfl
theorem lt_iff {a b : Span} : a < b ↔ a.nanos < b.nanos := Iff.rfl

def ofNanos? (n : Int) : Option Span :=
  if h : -9223372036854775807000000 ≤ n ∧ n ≤ 9223372036854775807000000 then some ⟨n, h⟩ else none

theorem ofNanos?_eq_some_iff {n : Int} {s : Span} : ofNanos? n = some s ↔ s.nanos = n := by
  unfold ofNanos?
  split
  · simp [Span.ext_iff, eq_comm]
  · constructor
    · simp
    · rintro rfl; exact absurd s.inRange ‹_›

theorem ofNanos?_eq_none_iff {n : Int} : ofNanos? n = none ↔
    n < -9223372036854775807000000 ∨ 9223372036854775807000000 < n := by
  unfold ofNanos?
  split <;> simp <;> omega

@[simp] theorem ofNanos?_nanos (s : Span) : ofNanos? s.nanos = some s :=
  ofNanos?_eq_some_iff.mpr rfl

def zero : Span := ⟨0, by decide⟩

def milliseconds? (n : Int) : Option Span := ofNanos? (n * 1000000)
def seconds? (n : Int) : Option Span := ofNanos? (n * 1000000000)
def minutes? (n : Int) : Option Span := ofNanos? (n * 60000000000)

/-- One minute. -/
def minute : Span := ⟨60000000000, by decide⟩

/-- The sum, unless it is out of bounds. -/
def add? (a b : Span) : Option Span := ofNanos? (a.nanos + b.nanos)

/-- Whole seconds, cut off toward zero. -/
def wholeSeconds (s : Span) : Int := s.nanos.tdiv 1000000000

/-- The nanoseconds beyond the whole seconds, with the sign of the span. -/
def subsecondNanos (s : Span) : Int := s.nanos.tmod 1000000000

/-- Whole minutes, cut off toward zero. -/
def wholeMinutes (s : Span) : Int := s.nanos.tdiv 60000000000

/-- `s` moved into the bounds `low` and `high`. -/
def clamp (s low high : Span) : Span :=
  if s < low then low else if high < s then high else s

/-- The nanoseconds after the point of a text of seconds, without zeros at the end. -/
def fractionText (nanos : Nat) : List Char :=
  if nanos = 0 then []
  else '.' :: ((Text.padded 9 nanos).reverse.dropWhile (· == '0')).reverse

/-- The span as a number of seconds: `P0D` if it is empty, else `PT…S` with a minus in front of
a negative one. -/
def text (s : Span) : List Char :=
  if s = zero then ['P', '0', 'D']
  else
    let body := 'P' :: 'T' :: Text.digits s.wholeSeconds.natAbs ++
      fractionText s.subsecondNanos.natAbs ++ ['S']
    if s < zero then '-' :: body else body

example : (minutes? 600).map text = some ['P', 'T', '3', '6', '0', '0', '0', 'S'] := by decide
example : (milliseconds? (-1500)).map text = some ['-', 'P', 'T', '1', '.', '5', 'S'] := by decide

end Span
end JourneyPages
