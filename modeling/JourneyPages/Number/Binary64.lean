import JourneyPages.Number.Rounding

/-!
Doubles taken apart. A `Float` is read off its 64 bits as a sign, a significand and a power of
two; rounding to an integer and the total order on all doubles are integer arithmetic on them.
-/
namespace JourneyPages.Number

/-- What a double stands for: `finite s m e` is m·2^e, negated when `s` holds. -/
inductive Binary64
  | nan
  | infinite (negative : Bool)
  | finite (negative : Bool) (significand : Nat) (exponent : Int)
  deriving DecidableEq, Repr

namespace Binary64

/-- The weight of the sign, the highest of the 64 bits. -/
def signBit : Nat := 0x8000000000000000

/-- The weight of the lowest exponent bit, which is that of the bit in front of the 52 fraction
bits that normal doubles leave out. -/
def leadingBit : Nat := 0x10000000000000

/-- The sign bit, the eleven exponent bits and the 52 fraction bits, in that order. -/
def ofFloat (x : Float) : Binary64 :=
  let bits := x.toBits.toNat
  let negative := decide (signBit ≤ bits)
  let field : Nat := bits / leadingBit % 2048
  let fraction := bits % leadingBit
  if field = 2047 then
    if fraction = 0 then .infinite negative else .nan
  else if field = 0 then .finite negative fraction (-1074)
  else .finite negative (leadingBit + fraction) ((field : Int) - 1075)

/-- m·2^e·10^places as a quotient of natural numbers. -/
def quotient (m : Nat) (e : Int) (places : Nat) : Nat × Nat :=
  (m * Nat.pow 2 e.toNat * Nat.pow 10 places, Nat.pow 2 (-e).toNat)

/-- m·2^e·10^places, rounded to an integer. -/
def scaled (tie : Tie) (m : Nat) (e : Int) (places : Nat) : Nat :=
  let (n, d) := quotient m e places
  divRound tie n d

/-- The total order on doubles as the order of integers: by value, with the negative zero below
the positive one, and the not-a-numbers outside the infinities on the side of their sign. -/
def totalKey (x : Float) : Int :=
  let bits := x.toBits.toNat
  if bits < signBit then bits else signBit - 1 - (bits : Int)

/-- `x` sorts before `y`, or with it, in the total order. -/
def totalLE (x y : Float) : Bool := decide (totalKey x ≤ totalKey y)

theorem totalLE_trans {x y z : Float} (h : totalLE x y = true) (h' : totalLE y z = true) :
    totalLE x z = true := by
  simp only [totalLE, decide_eq_true_eq] at *
  omega

theorem totalLE_total (x y : Float) : (totalLE x y || totalLE y x) = true := by
  simp only [totalLE, Bool.or_eq_true, decide_eq_true_eq]
  omega

example : totalLE (-0.0) 0.0 = true ∧ totalLE 0.0 (-0.0) = false := by decide

end Binary64

/-- The sum of the list from first to last. It starts at the negative zero, which adding leaves
every double as it is. -/
def sumFloats (xs : List Float) : Float := xs.foldl (· + ·) (-0.0)

/-- An integer as a double, to the nearest if it is too long. -/
def floatOfInt (n : Int) : Float := Float.ofInt n

end JourneyPages.Number
