import JourneyPages.Text.Blank
import JourneyPages.Time.Calendar
import JourneyPages.Time.Instant

/-!
Instants as text in the form of RFC 3339.

Written are UTC times with the fewest of 0, 3, 6 or 9 decimals that are exact; a year outside
0 to 9999 has a sign, and a leap second is second 60 of its minute. Reading is laxer: one digit is
enough where two are usual, blanks may stand in front of each number and separator, date and time
may be divided by a space, any offset from UTC is converted, and decimals after the ninth are
dropped. Any minute may have a second 60.
-/
namespace JourneyPages.Rfc3339
open Text

/-! Writing -/

/-- Four digits at least, with a sign in front of a year that is not one of 0 to 9999. -/
def yearText (year : Int) : List Char :=
  if 0 ≤ year ∧ year ≤ 9999 then padded 4 year.natAbs
  else (if year < 0 then '-' else '+') :: padded 4 year.natAbs

/-- The decimals of a second, with the point, in groups of three. -/
def fractionText (nanos : Nat) : List Char :=
  if nanos = 0 then []
  else if nanos % 1000000 = 0 then '.' :: padded 3 (nanos / 1000000)
  else if nanos % 1000 = 0 then '.' :: padded 6 (nanos / 1000)
  else '.' :: padded 9 nanos

/-- Ticks in a day. -/
def dayTicks : Int := 87840000000000

def write (t : Instant) : List Char :=
  let date := Calendar.ofDays (t.ticks / dayTicks)
  let clock := (t.ticks % dayTicks).toNat
  let minutes := clock / 61000000000
  let inMinute := clock % 61000000000
  yearText date.year ++ '-' :: padded 2 date.month ++ '-' :: padded 2 date.day ++
    'T' :: padded 2 (minutes / 60) ++ ':' :: padded 2 (minutes % 60) ++
    ':' :: padded 2 (inMinute / 1000000000) ++ fractionText (inMinute % 1000000000) ++ ['Z']

/-! Reading: each piece gives its value and what follows it. -/

/-- A number of one digit or more, of which at most `most` are taken. -/
def number? (most : Nat) (cs : List Char) : Option (Nat × List Char) :=
  let ds := (cs.take most).takeWhile Char.isDigit
  if ds = [] then none else some (ofDigits ds, cs.drop ds.length)

/-- A year: of any length after a sign, else of at most four digits. -/
def year? (cs : List Char) : Option (Int × List Char) :=
  match skipBlanks cs with
  | '-' :: rest => (number? rest.length rest).map fun (n, rest) => (-(n : Int), rest)
  | '+' :: rest => (number? rest.length rest).map fun (n, rest) => ((n : Int), rest)
  | rest => (number? 4 rest).map fun (n, rest) => ((n : Int), rest)

/-- A number of at most two digits below a bound. -/
def part? (bound : Nat) (cs : List Char) : Option (Nat × List Char) :=
  match number? 2 (skipBlanks cs) with
  | some (n, rest) => if n < bound then some (n, rest) else none
  | none => none

/-- What follows the given separator. -/
def after? (separator : Char) (cs : List Char) : Option (List Char) :=
  match skipBlanks cs with
  | c :: rest => if c = separator then some rest else none
  | [] => none

def date? (cs : List Char) : Option (Date × List Char) := do
  let (year, cs) ← year? cs
  let cs ← after? '-' cs
  let (month, cs) ← part? 13 cs
  let cs ← after? '-' cs
  let (day, cs) ← part? 32 cs
  let date : Date := ⟨year, month, day⟩
  if Calendar.valid date && -262143 ≤ year && year ≤ 262142 then some (date, cs) else none

/-- Nanoseconds after a decimal point, if there is one. -/
def fraction? : List Char → Option (Nat × List Char)
  | '.' :: cs =>
    let (ds, rest) := spanDigits cs
    if ds = [] then none
    else some (ofDigits (ds.take 9) * Nat.pow 10 (9 - (ds.take 9).length), rest)
  | cs => some (0, cs)

/-- Ticks since the start of the day. -/
def clock? (cs : List Char) : Option (Nat × List Char) := do
  let (hour, cs) ← part? 24 cs
  let cs ← after? ':' cs
  let (minute, cs) ← part? 60 cs
  let cs ← after? ':' cs
  let (second, cs) ← part? 61 cs
  let (nanos, cs) ← fraction? cs
  some ((hour * 60 + minute) * 61000000000 + second * 1000000000 + nanos, cs)

/-- Two digits of hours below 24 and two of minutes below 60, with colons or blanks between them,
as minutes. -/
def offsetMinutes? : List Char → Option (Nat × List Char)
  | h :: h' :: cs =>
    match cs.dropWhile (fun c => c == ':' || isBlank c) with
    | m :: m' :: rest =>
      if [h, h', m, m'].all Char.isDigit then
        let hours := ofDigits [h, h']
        let minutes := ofDigits [m, m']
        if hours < 24 ∧ minutes < 60 then some (hours * 60 + minutes, rest) else none
      else none
    | _ => none
  | _ => none

/-- The minutes by which the time written is ahead of UTC. -/
def offset? (cs : List Char) : Option (Int × List Char) :=
  match cs with
  | u :: t :: c :: rest =>
    if u.toUpper = 'U' ∧ t.toUpper = 'T' ∧ c.toUpper = 'C' then some (0, rest) else signed? cs
  | _ => signed? cs
where
  signed? : List Char → Option (Int × List Char)
    | 'Z' :: rest | 'z' :: rest => some (0, rest)
    | '+' :: rest => (offsetMinutes? rest).map fun (n, rest) => ((n : Int), rest)
    | '-' :: rest | '−' :: rest => (offsetMinutes? rest).map fun (n, rest) => (-(n : Int), rest)
    | _ => none

/-- The instant that a text denotes. Its date must be one of the calendar both as written and
in UTC. -/
def read? (cs : List Char) : Option Instant := do
  let (date, cs) ← date? cs
  match cs with
  | c :: cs =>
    if c = 'T' ∨ c = 't' ∨ c = ' ' then
      let (clock, cs) ← clock? cs
      let (offset, cs) ← offset? (skipBlanks cs)
      if skipBlanks cs = [] then
        Instant.ofTicks? (Calendar.toDays date * dayTicks + clock - offset * 61000000000)
      else none
    else none
  | [] => none

end JourneyPages.Rfc3339
