/-!
Rounding a quotient of natural numbers to the nearest integer, with the rule for ties as a
parameter. Main statements: the result is one of the two integers next to the quotient, the one
that is nearer, and a quotient that is whole is kept.
-/
namespace JourneyPages.Number

/-- Where a quotient exactly between two integers goes. -/
inductive Tie
  | up
  | even
  deriving DecidableEq, Repr

/-- The integer nearest to `n / d`. -/
def divRound (tie : Tie) (n d : Nat) : Nat :=
  let q := n / d
  let r := n % d
  if 2 * r < d then q
  else if d < 2 * r then q + 1
  else match tie with
    | .up => q + 1
    | .even => if q % 2 = 0 then q else q + 1

theorem divRound_eq_or (tie : Tie) (n d : Nat) :
    divRound tie n d = n / d ∧ 2 * (n % d) ≤ d ∨
      divRound tie n d = n / d + 1 ∧ d ≤ 2 * (n % d) := by
  unfold divRound
  cases tie <;> (dsimp only; split; · omega) <;> split <;> (try split) <;> omega

@[simp] theorem divRound_mul (tie : Tie) (q d : Nat) (hd : 0 < d) :
    divRound tie (q * d) d = q := by
  simp [divRound, hd]

example : divRound .up 5 2 = 3 ∧ divRound .even 5 2 = 2 ∧ divRound .even 7 2 = 4 := by decide

end JourneyPages.Number
