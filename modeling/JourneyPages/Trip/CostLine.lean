import JourneyPages.Number.Fixed
import JourneyPages.Number.Numeral
import JourneyPages.Text.Blank
import JourneyPages.Trip.Cost

/-!
Linear functions a + b·x from costs to costs, with a and b not negative, and their text
`<a> + <b> x`. They set how much dearer than the best an itinerary may be.
-/
namespace JourneyPages

/-- A double that is finite and not below zero. The negative zero is not below zero. -/
def isMeasure (x : Float) : Bool := x.isFinite && !decide (x < 0.0)

/-- Why a text or a pair of numbers is no cost line. -/
inductive CostLineError
  | noPlus
  | noVariable
  | constantNotANumber
  | coefficientNotANumber
  | coefficientNotAMeasure
  | constantNegative
  deriving DecidableEq, Repr

def CostLineError.reason : CostLineError → String
  | noPlus => "expected '<a> + <b> x'"
  | noVariable => "second term must end in 'x'"
  | constantNotANumber => "constant is not a number"
  | coefficientNotANumber => "coefficient is not a number"
  | coefficientNotAMeasure => "coefficient must be a finite, non-negative number"
  | constantNegative => "constant must not be negative"

def CostLineError.message (e : CostLineError) : String := "invalid cost function: " ++ e.reason

/-- The line `constant` + `coefficient`·x. -/
structure CostLine where
  constant : Cost
  coefficient : Float
  constant_nonneg : 0 ≤ constant.value
  coefficient_isMeasure : isMeasure coefficient = true

namespace CostLine

def make (constant : Cost) (coefficient : Float) : Except CostLineError CostLine :=
  if hb : isMeasure coefficient = true then
    if ha : 0 ≤ constant.value then .ok ⟨constant, coefficient, ha, hb⟩
    else .error .constantNegative
  else .error .coefficientNotAMeasure

/-- The line that leaves every cost as it is. -/
def identity : CostLine := ⟨Cost.zero, 1.0, by decide, by decide⟩

/-- Lines are alike if they have the same constant and coefficients that compare equal. -/
instance : BEq CostLine := ⟨fun f g => f.constant == g.constant && f.coefficient == g.coefficient⟩

/-- The value at a cost, computed in doubles and rounded to a cost. -/
def apply (f : CostLine) (x : Cost) : Cost :=
  Cost.ofFloat (f.constant.toFloat + f.coefficient * x.toFloat)

def text (f : CostLine) : String :=
  String.ofList (Text.integer f.constant.value ++ [' ', '+', ' '] ++
    Number.fixed 2 f.coefficient ++ [' ', 'x'])

/-- The line that a text denotes. Blanks mean nothing, the first plus divides the two terms, and
the constant is rounded to a cost before its sign is looked at. -/
def read (s : String) : Except CostLineError CostLine :=
  let cs := s.toList.filter (!Text.isBlank ·)
  match cs.dropWhile (· ≠ '+') with
  | [] => .error .noPlus
  | _ :: term =>
    match term.reverse with
    | 'x' :: coefficient =>
      match Number.Numeral.toFloat? (cs.takeWhile (· ≠ '+')) with
      | none => .error .constantNotANumber
      | some constant =>
        match Number.Numeral.toFloat? coefficient.reverse with
        | none => .error .coefficientNotANumber
        | some coefficient => make (Cost.ofFloat constant) coefficient
    | _ => .error .noVariable

end CostLine
end JourneyPages
