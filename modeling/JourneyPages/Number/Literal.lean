import JourneyPages.Number.Binary64
import JourneyPages.Text.Digits

/-!
Decimal literals as written: the digits on both sides of the point and the exponent are kept
apart, because what a literal denotes depends on how it is written and who reads it.
-/
namespace JourneyPages.Number

/-- A decimal literal. `fraction` is empty if no point is written. -/
structure Literal where
  negative : Bool
  whole : List Char
  fraction : List Char
  exponent : Option Int
  deriving DecidableEq, Repr

namespace Literal

def ofInt (n : Int) : Literal := ⟨decide (n < 0), Text.digits n.natAbs, [], none⟩

/-- The text of a literal. An exponent always has its sign. -/
def text (l : Literal) : List Char :=
  let sign := if l.negative then ['-'] else []
  let fraction := if l.fraction = [] then [] else '.' :: l.fraction
  let exponent := match l.exponent with
    | some e => 'e' :: (if e < 0 then '-' else '+') :: Text.digits e.natAbs
    | none => []
  sign ++ l.whole ++ fraction ++ exponent

/-- The integer a literal denotes if it is written as one. The negative zero is not an integer. -/
def toInt? (l : Literal) : Option Int :=
  if l.fraction = [] ∧ l.exponent = none then
    let n := Text.ofDigits l.whole
    if l.negative then (if n = 0 then none else some (-(n : Int))) else some n
  else none

@[simp] theorem toInt?_ofInt (n : Int) : (ofInt n).toInt? = some n := by
  have h : (ofInt n).toInt? =
      if n < 0 then (if n.natAbs = 0 then none else some (-(n.natAbs : Int)))
      else some (n.natAbs : Int) := by
    simp [toInt?, ofInt]
  rw [h]
  split
  · rw [if_neg (by omega)]; congr 1; omega
  · congr 1; omega

/-- The number of leading digits that a significand of 64 bits can still take up after `n`, and
the significand with them. -/
def takeUp : Nat → List Char → Nat × Nat
  | n, [] => (n, 0)
  | n, c :: cs =>
    let next := 10 * n + (c.toNat - '0'.toNat)
    if next < 0x10000000000000000 then
      let (total, count) := takeUp next cs
      (total, count + 1)
    else (n, 0)

/-- `x`·10^`e`, by one multiplication or division by a power of ten where a double has that
power; below that, by dividing by 10^308 first as often as it takes. No result if it is too large
for a double. -/
def scale? (x : Float) (e : Int) : Option Float :=
  if h : e < -308 then
    if x == 0.0 then some x else scale? (x / 1e308) (e + 308)
  else if e < 0 then some (x / Float.ofScientific 1 false e.natAbs)
  else if e ≤ 308 then
    let y := x * Float.ofScientific 1 false e.natAbs
    if y.isInf then none else some y
  else if x == 0.0 then some x else none
termination_by e.natAbs

/-- The double that stands for a literal: the leading digits that fit in 64 bits, as a double,
scaled by one power of ten. This is the nearest double whenever the digits fit in 53 bits and the
power in the 22 that are exact. -/
def toFloat? (l : Literal) : Option Float :=
  let (n, taken) := takeUp 0 l.whole
  let (n, decimals) := takeUp n l.fraction
  let e : Int := (l.whole.length - taken : Nat) - decimals + l.exponent.getD 0
  (scale? (floatOfInt n) e).map fun x => if l.negative then -x else x

end Literal
end JourneyPages.Number
