import JourneyPages.Number.Binary64
import JourneyPages.Text.Digits

/-!
Doubles with a fixed number of decimals.
-/
namespace JourneyPages.Number

/-- The digits of `n` with a point in front of the last `places` of them. -/
def pointed (places n : Nat) : List Char :=
  let whole := Text.digits (n / Nat.pow 10 places)
  if places = 0 then whole else whole ++ '.' :: Text.padded places (n % Nat.pow 10 places)

/-- The exact value of the double, rounded to the given number of decimals with ties to even.
The sign bit is always written, also in front of a zero. -/
def fixed (places : Nat) (x : Float) : List Char :=
  match Binary64.ofFloat x with
  | .nan => ['N', 'a', 'N']
  | .infinite negative => if negative then ['-', 'i', 'n', 'f'] else ['i', 'n', 'f']
  | .finite negative m e =>
    let text := pointed places (Binary64.scaled .even m e places)
    if negative then '-' :: text else text

example : pointed 2 5 = ['0', '.', '0', '5'] ∧ pointed 0 5 = ['5'] := by decide

end JourneyPages.Number
