/-!
The Gregorian calendar, extended to all years in both directions. A date and its number of days
since 1970-01-01 determine each other.
-/
namespace JourneyPages

/-- A date: the month counts from 1 to 12, the day from 1. -/
@[ext] structure Date where
  year : Int
  month : Nat
  day : Nat
  deriving DecidableEq, Repr

namespace Calendar

def isLeap (year : Int) : Bool := year % 4 == 0 && (year % 100 != 0 || year % 400 == 0)

/-- The lengths of the twelve months. -/
def monthLengths (leap : Bool) : List Nat :=
  [31, if leap then 29 else 28, 31, 30, 31, 30, 31, 31, 30, 31, 30, 31]

/-- The length of a row of months. -/
def total : List Nat → Nat
  | [] => 0
  | length :: rest => length + total rest

/-- Whether the calendar has the date. -/
def valid (d : Date) : Bool :=
  1 ≤ d.month && 1 ≤ d.day &&
    match (monthLengths (isLeap d.year))[d.month - 1]? with
    | some length => d.day ≤ length
    | none => false

/-- Days from 0001-01-01 to the start of a year. -/
def daysBeforeYear (year : Int) : Int :=
  let y := year - 1
  365 * y + y / 4 - y / 100 + y / 400

/-- Days from 0001-01-01 to 1970-01-01. -/
def epoch : Int := 719162

/-- Days from 1970-01-01 to the date. -/
def toDays (d : Date) : Int :=
  daysBeforeYear d.year + total ((monthLengths (isLeap d.year)).take (d.month - 1)) + d.day - 1 -
    epoch

/-- Month and day of the day with the given number, from 0, in months of the given lengths that
start with month `m`. -/
def monthOfDay : List Nat → Nat → Nat → Nat × Nat
  | [], m, n => (m, n + 1)
  | length :: rest, m, n => if n < length then (m, n + 1) else monthOfDay rest (m + 1) (n - length)

/-- The date that many days after 1970-01-01. A block of 400 years has 146097 days, the centuries
in it 36524 but for the last, the fours in those 1461 but for the last, and the years in those 365
but for the last. -/
def ofDays (n : Int) : Date :=
  let z := n + epoch
  let block := z / 146097
  let inBlock := (z % 146097).toNat
  let century := min (inBlock / 36524) 3
  let inCentury := inBlock - 36524 * century
  let four := inCentury / 1461
  let inFour := inCentury % 1461
  let one := min (inFour / 365) 3
  let year := 400 * block + 100 * century + 4 * four + one + 1
  let (month, day) := monthOfDay (monthLengths (isLeap year)) 1 (inFour - 365 * one)
  ⟨year, month, day⟩

/-- The month and the day found lie inside the months given and add up to the day asked for. -/
theorem monthOfDay_total (ls : List Nat) (m n : Nat) (h : n < total ls) :
    ∃ i, i < ls.length ∧ (monthOfDay ls m n).1 = m + i ∧
      total (ls.take i) + (monthOfDay ls m n).2 = n + 1 ∧
      ∃ l, ls[i]? = some l ∧ (monthOfDay ls m n).2 ≤ l ∧ 1 ≤ (monthOfDay ls m n).2 := by
  induction ls generalizing m n with
  | nil => simp [total] at h
  | cons l rest ih =>
    unfold monthOfDay
    split
    · exact ⟨0, by simp, rfl, by simp [total], l, by simp, by dsimp; omega, by dsimp; omega⟩
    · simp only [total] at h
      obtain ⟨i, hi, h1, h2, l', h3, h4, h5⟩ := ih (m + 1) (n - l) (by omega)
      exact ⟨i + 1, by simp; omega, by omega, by simp [List.take_succ_cons, total]; omega, l',
        by simpa using h3, h4, h5⟩

theorem total_monthLengths (b : Bool) : total (monthLengths b) = if b then 366 else 365 := by
  cases b <;> rfl

/-- Every number of days is that of a date of the calendar. -/
theorem toDays_ofDays_and_valid (n : Int) : toDays (ofDays n) = n ∧ valid (ofDays n) = true := by
  unfold ofDays
  extract_lets z block inBlock century inCentury four inFour one year
  have hz := Int.emod_nonneg z (b := 146097) (by decide)
  have hz' := Int.emod_lt_of_pos z (b := 146097) (by decide)
  have hb : 146097 * block + z % 146097 = z := by have := Int.mul_ediv_add_emod z 146097; omega
  have hin : (inBlock : Int) = z % 146097 := by simp only [inBlock]; omega
  have hc : century ≤ 3 := by omega
  have hl : isLeap year = decide (one = 3 ∧ (four ≠ 24 ∨ century = 3)) := by
    have h4 : four ≤ 24 := by omega
    have h1 : one ≤ 3 := by omega
    have e4 : year % 4 = ((one + 1 : Nat) % 4 : Int) := by omega
    have e100 : year % 100 = 0 ↔ one = 3 ∧ four = 24 := by omega
    have e400 : year % 400 = 0 ↔ one = 3 ∧ four = 24 ∧ century = 3 := by omega
    rw [Bool.eq_iff_iff]
    simp only [isLeap, Bool.and_eq_true, beq_iff_eq, Bool.or_eq_true, bne_iff_ne,
      decide_eq_true_eq, ne_eq, e100, e400]
    omega
  have hy : daysBeforeYear year + ((inFour - 365 * one : Nat) : Int) = z := by
    unfold daysBeforeYear
    dsimp only
    have h4 : four ≤ 24 := by omega
    have h1 : one ≤ 3 := by omega
    have e4 : (year - 1) / 4 = 100 * block + 25 * century + four := by omega
    have e100 : (year - 1) / 100 = 4 * block + century := by omega
    have e400 : (year - 1) / 400 = block := by omega
    omega
  have hd : inFour - 365 * one < total (monthLengths (isLeap year)) := by
    rw [total_monthLengths, hl]
    simp only [decide_eq_true_eq]
    split <;> omega
  obtain ⟨i, hi, h1, h2, l, h3, h4, h5⟩ := monthOfDay_total _ 1 _ hd
  constructor
  · simp only [toDays, h1]
    rw [show 1 + i - 1 = i by omega]
    omega
  · simp only [valid, h1, Bool.and_eq_true, decide_eq_true_eq]
    rw [show 1 + i - 1 = i by omega, h3]
    simp; omega

@[simp] theorem toDays_ofDays (n : Int) : toDays (ofDays n) = n := (toDays_ofDays_and_valid n).1

@[simp] theorem valid_ofDays (n : Int) : valid (ofDays n) = true := (toDays_ofDays_and_valid n).2

example : toDays ⟨1970, 1, 1⟩ = 0 ∧ toDays ⟨2024, 3, 15⟩ = 19797 := by decide
example : toDays ⟨-262143, 1, 1⟩ = -96465292 ∧ toDays ⟨262142, 12, 31⟩ = 95026236 := by decide
example : ofDays 19797 = ⟨2024, 3, 15⟩ ∧ ofDays (-719163) = ⟨0, 12, 31⟩ := by decide

end Calendar
end JourneyPages
