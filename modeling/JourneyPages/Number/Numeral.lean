import JourneyPages.Number.Binary64
import JourneyPages.Text.Digits

/-!
Reading the text of a real number as a double, rounded to the nearest. The grammar: an optional
sign, then digits with an optional point (one side of it may be empty) and an optional exponent,
or one of the words `inf`, `infinity` and `nan` in any case.
-/
namespace JourneyPages.Number

/-- ±digits·10^exponent. -/
structure Scientific where
  negative : Bool
  digits : Nat
  exponent : Int
  deriving DecidableEq, Repr

/-- The nearest double, ties to even. Outside the exponents that a double can have the answer is
an infinity or a zero; it is given without computing the power. -/
def Scientific.toFloat (s : Scientific) : Float :=
  let top : Int := (Text.digits s.digits).length + s.exponent
  let magnitude : Float :=
    if s.digits = 0 ∨ top < -400 then 0.0
    else if 400 < top then 1.0 / 0.0
    else Float.ofScientific s.digits (s.exponent < 0) s.exponent.natAbs
  if s.negative then -magnitude else magnitude

namespace Numeral

/-- An optional sign in front of a text: whether it is a minus, and what follows. -/
def sign : List Char → Bool × List Char
  | '-' :: rest => (true, rest)
  | '+' :: rest => (false, rest)
  | rest => (false, rest)

theorem length_sign_le (cs : List Char) : (sign cs).2.length ≤ cs.length := by
  unfold sign
  split <;> simp

/-- The exponent at the end of a numeral: zero if there is none. -/
def exponent? : List Char → Option Int
  | [] => some 0
  | c :: rest =>
    if c = 'e' ∨ c = 'E' then
      let (negative, ds) := sign rest
      if ds ≠ [] ∧ ds.all Char.isDigit then
        let n : Int := Text.ofDigits ds
        some (if negative then -n else n)
      else none
    else none

/-- Digits with an optional point and an optional exponent. -/
def decimal? (negative : Bool) (cs : List Char) : Option Scientific :=
  let (whole, rest) := Text.spanDigits cs
  let (fraction, rest) := match rest with
    | '.' :: rest => Text.spanDigits rest
    | rest => ([], rest)
  if whole = [] ∧ fraction = [] then none
  else (exponent? rest).map fun e =>
    ⟨negative, Text.ofDigits (whole ++ fraction), e - fraction.length⟩

/-- The word that a text spells in any case. -/
def spells (word : String) (cs : List Char) : Bool := cs.map Char.toLower == word.toList

/-- The double that a numeral denotes. -/
def toFloat? (cs : List Char) : Option Float :=
  let (negative, body) := sign cs
  if spells "inf" body || spells "infinity" body then
    some (if negative then -1.0 / 0.0 else 1.0 / 0.0)
  else if spells "nan" body then some (0.0 / 0.0)
  else (decimal? negative body).map Scientific.toFloat

example : decimal? true ['1', '.', '5', 'e', '3'] = some ⟨true, 15, 2⟩ := by decide
example : decimal? false ['.', 'e', '3'] = none := by decide

end Numeral
end JourneyPages.Number
