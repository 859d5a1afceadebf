import JourneyPages.Proofs.Text
import JourneyPages.Time.Rfc3339

/-!
An instant is read back from its text, piece by piece: each piece is followed by something that ends
it. The years of instants are those that the reader takes.
-/
namespace JourneyPages

/-! Years of instants -/

namespace Calendar
variable {d : Date}

theorem month_lt_of_valid (h : valid d) : d.month < 13 := by
  simp only [valid, Bool.and_eq_true, decide_eq_true_eq] at h
  obtain ⟨⟨hmonth, -⟩, hday⟩ := h
  split at hday
  case h_1 length hlength =>
    have hlt := (List.getElem?_eq_some_iff.mp hlength).1
    rw [show (monthLengths (isLeap d.year)).length = 12 from rfl] at hlt
    omega
  case h_2 => cases hday

/-- A date is one of the days of its year. -/
theorem day_of_valid (h : valid d) : 1 ≤ d.day ∧ d.day < 32 ∧
    total ((monthLengths (isLeap d.year)).take (d.month - 1)) + d.day ≤ 366 := by
  have hall : ∀ leap, ∀ i : Fin 12, ∀ length ∈ (monthLengths leap)[i.val]?,
      length < 32 ∧ total ((monthLengths leap).take i) + length ≤ 366 := by decide
  have hmonth := month_lt_of_valid h
  simp only [valid, Bool.and_eq_true, decide_eq_true_eq] at h
  obtain ⟨⟨hpos, hone⟩, hday⟩ := h
  split at hday
  case h_1 length hlength =>
    have hle := of_decide_eq_true hday
    obtain ⟨hlt, htotal⟩ := hall (isLeap d.year) ⟨d.month - 1, by omega⟩ length hlength
    dsimp only at htotal
    omega
  case h_2 => cases hday

/-- The years of days that instants have. -/
theorem year_of_toDays (h : valid d) (hlow : -96465292 ≤ toDays d) (hhigh : toDays d ≤ 95026236) :
    -262143 ≤ d.year ∧ d.year ≤ 262142 := by
  obtain ⟨hone, -, htotal⟩ := day_of_valid h
  unfold toDays epoch at hlow hhigh
  generalize total ((monthLengths (isLeap d.year)).take (d.month - 1)) = before at *
  unfold daysBeforeYear at hlow hhigh
  dsimp only at hlow hhigh
  -- The year next to the bound is met exactly, and the others by far.
  constructor
  · by_contra hlt
    have hyear : d.year = -262144 ∨ d.year ≤ -262145 := by omega
    rcases hyear with heq | hlt
    · rw [heq] at hlow
      omega
    · omega
  · by_contra hlt
    have hyear : d.year = 262143 ∨ 262144 ≤ d.year := by omega
    rcases hyear with heq | hlt
    · rw [heq] at hhigh
      omega
    · omega

end Calendar

namespace Rfc3339
open Text

variable {ds rest : List Char}

theorem number?_append {most : Nat} (hds : ∀ c ∈ ds, c.isDigit) (hne : ds ≠ [])
    (hle : ds.length ≤ most) (hend : ds.length = most ∨ endsDigits rest) :
    number? most (ds ++ rest) = some (ofDigits ds, rest) := by
  have hends : endsDigits (rest.take (most - ds.length)) := by
    rcases hend with heq | hrest
    · rw [heq, Nat.sub_self]
      rfl
    · cases rest with
      | nil => simpa using hrest
      | cons c rest =>
        cases most - ds.length
        · rfl
        · exact hrest
  have htaken : ((ds ++ rest).take most).takeWhile Char.isDigit = ds := by
    rw [List.take_append, List.take_of_length_le hle]
    exact takeWhile_isDigit_append hds hends
  simp [number?, htaken, hne]

theorem after?_cons {c : Char} (h : isBlank c = false) (cs : List Char) :
    after? c (c :: cs) = some cs := by
  simp [after?, h]

theorem part?_padded {bound n : Nat} (h : n < bound) (hbound : bound ≤ 100) (rest : List Char) :
    part? bound (padded 2 n ++ rest) = some (n, rest) := by
  have hds : ∀ c ∈ padded 2 n, c.isDigit := fun c hc => isDigit_of_mem_padded hc
  have hlen : (padded 2 n).length = 2 := length_padded (by omega) (by decide)
  have hnumber : number? 2 (padded 2 n ++ rest) = some (ofDigits (padded 2 n), rest) :=
    number?_append hds (padded_ne_nil 2 n) hlen.le (.inl hlen)
  simp only [part?, skipBlanks_append (padded_ne_nil 2 n) hds, hnumber, ofDigits_padded, h, if_true]

theorem year?_of_isDigit (hds : ∀ c ∈ ds, c.isDigit) (hne : ds ≠ []) (rest : List Char) :
    year? (ds ++ rest) = (number? 4 (ds ++ rest)).map fun (n, rest) => ((n : Int), rest) := by
  rw [year?, skipBlanks_append hne hds]
  obtain ⟨d, ds', rfl, hd⟩ := exists_digit_cons hne hds
  split
  case h_1 heq =>
    obtain ⟨rfl, -⟩ := List.cons.inj heq
    cases hd
  case h_2 heq =>
    obtain ⟨rfl, -⟩ := List.cons.inj heq
    cases hd
  case h_3 => rfl

theorem year?_yearText (year : Int) (rest : List Char) :
    year? (yearText year ++ '-' :: rest) = some (year, '-' :: rest) := by
  have hds : ∀ c ∈ padded 4 year.natAbs, c.isDigit := fun c hc => isDigit_of_mem_padded hc
  have hne := padded_ne_nil 4 year.natAbs
  have hsigned : number? (padded 4 year.natAbs ++ '-' :: rest).length
      (padded 4 year.natAbs ++ '-' :: rest) = some (year.natAbs, '-' :: rest) := by
    rw [number?_append hds hne (by simp) (.inr rfl), ofDigits_padded]
  unfold yearText
  split
  case isTrue hyear =>
    have hlen : (padded 4 year.natAbs).length = 4 := length_padded (by omega) (by decide)
    have habs : (year.natAbs : Int) = year := by omega
    rw [year?_of_isDigit hds hne, number?_append hds hne hlen.le (.inl hlen), ofDigits_padded]
    simp only [Option.map_some, habs]
  case isFalse hyear =>
    split
    case isTrue hneg =>
      have habs : -(year.natAbs : Int) = year := by omega
      rw [year?, List.cons_append, skipBlanks_cons (by decide)]
      simp only [hsigned, Option.map_some, habs]
    case isFalse hpos =>
      have habs : (year.natAbs : Int) = year := by omega
      rw [year?, List.cons_append, skipBlanks_cons (by decide)]
      simp only [hsigned, Option.map_some, habs]

theorem date?_text {d : Date} (hvalid : Calendar.valid d)
    (hyear : -262143 ≤ d.year ∧ d.year ≤ 262142) (rest : List Char) :
    date? (yearText d.year ++ '-' :: (padded 2 d.month ++ '-' :: (padded 2 d.day ++ 'T' :: rest))) =
      some (d, 'T' :: rest) := by
  have hmonth := Calendar.month_lt_of_valid hvalid
  have hday := (Calendar.day_of_valid hvalid).2.1
  simp only [date?, year?_yearText, after?_cons (show isBlank '-' = false by decide),
    part?_padded hmonth (by decide), part?_padded hday (by decide), Option.bind_eq_bind,
    Option.bind_some, hvalid, hyear, decide_true, Bool.and_true, if_true]

theorem fraction?_padded {width n : Nat} (hwidth : 0 < width) (hle : width ≤ 9)
    (h : n < 10 ^ width) (rest : List Char) :
    fraction? ('.' :: (padded width n ++ 'Z' :: rest)) =
      some (n * 10 ^ (9 - width), 'Z' :: rest) := by
  have hlen := length_padded h hwidth
  have hspan : spanDigits (padded width n ++ 'Z' :: rest) = (padded width n, 'Z' :: rest) :=
    spanDigits_append (fun c hc => isDigit_of_mem_padded hc) rfl
  have htake : (padded width n).take 9 = padded width n := List.take_of_length_le (by omega)
  simp only [fraction?, hspan, padded_ne_nil, if_false, htake, hlen, ofDigits_padded]
  rfl

theorem fraction?_fractionText {n : Nat} (h : n < 1000000000) (rest : List Char) :
    fraction? (fractionText n ++ 'Z' :: rest) = some (n, 'Z' :: rest) := by
  unfold fractionText
  split
  case isTrue hzero =>
    rw [hzero]
    rfl
  case isFalse =>
    split
    case isTrue hmilli =>
      rw [List.cons_append, fraction?_padded (by decide) (by decide) (by omega)]
      congr 2
      omega
    case isFalse =>
      split
      case isTrue hmicro =>
        rw [List.cons_append, fraction?_padded (by decide) (by decide) (by omega)]
        congr 2
        omega
      case isFalse =>
        rw [List.cons_append, fraction?_padded (by decide) (by decide) (by omega)]
        congr 2
        omega

theorem clock?_text {clock : Nat} (h : clock < 87840000000000) (rest : List Char) :
    clock? (padded 2 (clock / 61000000000 / 60) ++ ':' ::
      (padded 2 (clock / 61000000000 % 60) ++ ':' ::
        (padded 2 (clock % 61000000000 / 1000000000) ++
          (fractionText (clock % 61000000000 % 1000000000) ++ 'Z' :: rest)))) =
      some (clock, 'Z' :: rest) := by
  have hhour : clock / 61000000000 / 60 < 24 := by omega
  have hminute : clock / 61000000000 % 60 < 60 := Nat.mod_lt _ (by decide)
  have hsecond : clock % 61000000000 / 1000000000 < 61 := by omega
  have hnanos : clock % 61000000000 % 1000000000 < 1000000000 := Nat.mod_lt _ (by decide)
  simp only [clock?, part?_padded hhour (by decide), part?_padded hminute (by decide),
    part?_padded hsecond (by decide), after?_cons (show isBlank ':' = false by decide),
    fraction?_fractionText hnanos, Option.bind_eq_bind, Option.bind_some, Option.some.injEq,
    Prod.mk.injEq, and_true]
  omega

/-- An instant is read back from its text, to the nanosecond and with a leap second. -/
@[simp] theorem read?_write (t : Instant) : read? (write t) = some t := by
  have hrange := t.inRange
  have hclock : (t.ticks % dayTicks).toNat < 87840000000000 := by
    unfold dayTicks
    omega
  have hdate : -262143 ≤ (Calendar.ofDays (t.ticks / dayTicks)).year ∧
      (Calendar.ofDays (t.ticks / dayTicks)).year ≤ 262142 := by
    apply Calendar.year_of_toDays (Calendar.valid_ofDays _)
    · rw [Calendar.toDays_ofDays]
      unfold dayTicks
      omega
    · rw [Calendar.toDays_ofDays]
      unfold dayTicks
      omega
  have hoffset : offset? (skipBlanks ['Z']) = some (0, []) := by decide
  have hend : skipBlanks [] = [] := rfl
  have hticks : t.ticks / dayTicks * dayTicks + (t.ticks % dayTicks).toNat - 0 * 61000000000 =
      t.ticks := by
    unfold dayTicks
    omega
  simp only [read?, write, List.append_assoc, List.cons_append,
    date?_text (Calendar.valid_ofDays _) hdate, clock?_text hclock, hoffset, hend,
    Calendar.toDays_ofDays, hticks, Option.bind_eq_bind, Option.bind_some, true_or, if_true,
    Instant.ofTicks?_ticks]

example : (read? "2017-01-01T00:59:60.5+01:00".toList).map write =
    some "2016-12-31T23:59:60.500Z".toList := by decide +kernel

end Rfc3339
end JourneyPages
