import JourneyPages.Number.Literal

/-!
The shortest decimal that reads back as a given double.

A double m·2^e is what every real in an interval around it rounds to. Of the decimals d·10^k in
that interval those with the fewest digits are taken, and of them the nearest to the value. If a
decimal grid has a point in the interval, one of the value's two neighbours on that grid is such
a point, so two candidates per number of digits are enough.
-/
namespace JourneyPages.Number

/-- The decimal d·10^k. -/
structure Decimal where
  digits : Nat
  exponent : Int
  deriving DecidableEq, Repr

namespace Shortest

/-- The reals between `low`·u and `high`·u that round to `value`·u, where u is 2^`unit`. The ends
belong to it if `closed` holds. -/
structure Interval where
  low : Nat
  value : Nat
  high : Nat
  unit : Int
  closed : Bool

/-- Half the gap to the next double on either side, in quarters of 2^e. Below a power of two the
doubles lie twice as dense. -/
def interval (m : Nat) (e : Int) : Interval :=
  let below := if m = Binary64.leadingBit ∧ -1074 < e then 1 else 2
  { low := 4 * m - below, value := 4 * m, high := 4 * m + 2, unit := e - 2,
    closed := m % 2 == 0 }

/-- Both sides of a comparison between a·10^k and b·2^u, as natural numbers. -/
def sides (a : Nat) (k : Int) (b : Nat) (u : Int) : Nat × Nat :=
  (a * Nat.pow 10 k.toNat * Nat.pow 2 (-u).toNat, b * Nat.pow 2 u.toNat * Nat.pow 10 (-k).toNat)

/-- Whether d·10^k lies in the interval. -/
def Interval.contains (i : Interval) (d : Nat) (k : Int) : Bool :=
  let (x, low) := sides d k i.low i.unit
  let (_, high) := sides d k i.high i.unit
  if i.closed then low ≤ x && x ≤ high else low < x && x < high

/-- The decimal exponent E with 10^E ≤ value < 10^(E+1). -/
def magnitude (i : Interval) : Int :=
  let guess : Int := (Text.digits (i.value * Nat.pow 2 i.unit.toNat)).length
    - (Text.digits (Nat.pow 2 (-i.unit).toNat)).length
  let (power, value) := sides 1 guess i.value i.unit
  if power ≤ value then guess else guess - 1

/-- The best decimal on the grid of multiples of 10^k: the one of the value's two neighbours that
lies in the interval, the nearer if both do, and the even one if they are equally near. -/
def onGrid (i : Interval) (k : Int) : Option Decimal :=
  let (step, value) := sides 1 k i.value i.unit
  let down := value / step
  let up := down + 1
  match i.contains down k, i.contains up k with
  | true, false => some ⟨down, k⟩
  | false, true => some ⟨up, k⟩
  | false, false => none
  | true, true => some ⟨divRound .even value step, k⟩

/-- The shortest decimal for m·2^e, given that m is not zero. Seventeen digits tell all doubles
apart, so the search ends at the latest there. -/
def ofBinary (m : Nat) (e : Int) : Decimal :=
  let i := interval m e
  let top := magnitude i
  let found := (List.range 17).findSome? fun (n : Nat) => onGrid i (top - n)
  found.getD ⟨m, 0⟩

end Shortest

/-- How a decimal is laid out: it is written out with a point in place if the point stands more
than `least` places behind the first digit and at most `most`. -/
structure Layout where
  least : Int
  most : Int

/-- Drops trailing zeros of the digits into the exponent. -/
def Decimal.normalize (d : Decimal) : Decimal :=
  let zeros := ((Text.digits d.digits).reverse.takeWhile (· == '0')).length
  if d.digits = 0 then ⟨0, 0⟩ else ⟨d.digits / Nat.pow 10 zeros, d.exponent + zeros⟩

/-- A decimal as a literal: positional with at least one digit on either side of the point while
the layout allows it, else with one digit in front of the point and an exponent. -/
def Decimal.literal (l : Layout) (negative : Bool) (d : Decimal) : Literal :=
  let ds := Text.digits d.digits
  let point : Int := ds.length + d.exponent
  if l.least < point ∧ point ≤ l.most then
    if 0 ≤ d.exponent then ⟨negative, ds ++ List.replicate d.exponent.toNat '0', ['0'], none⟩
    else if 0 < point then ⟨negative, ds.take point.toNat, ds.drop point.toNat, none⟩
    else ⟨negative, ['0'], List.replicate (-point).toNat '0' ++ ds, none⟩
  else ⟨negative, ds.take 1, ds.drop 1, some (point - 1)⟩

/-- The shortest literal of a finite double; none for the others. -/
def shortest? (l : Layout) (x : Float) : Option Literal :=
  match Binary64.ofFloat x with
  | .finite negative m e =>
    let d := if m = 0 then ⟨0, 0⟩ else (Shortest.ofBinary m e).normalize
    some (d.literal l negative)
  | _ => none

end JourneyPages.Number
