import JourneyPages.Number.Binary64
import JourneyPages.Text.Digits

/-!
Generalized costs: one integer that weighs time, transfers and modes against each other, lower
being better. Costs have 32 bits; results beyond that are moved to the nearest end.
-/
namespace JourneyPages

@[ext] structure Cost where
  value : Int
  inRange : -2147483648 ≤ value ∧ value ≤ 2147483647
  deriving DecidableEq

namespace Cost

instance : LE Cost := ⟨fun a b => a.value ≤ b.value⟩
instance : LT Cost := ⟨fun a b => a.value < b.value⟩
instance (a b : Cost) : Decidable (a ≤ b) := inferInstanceAs (Decidable (a.value ≤ b.value))
instance (a b : Cost) : Decidable (a < b) := inferInstanceAs (Decidable (a.value < b.value))

theorem le_iff {a b : Cost} : a ≤ b ↔ a.value ≤ b.value := Iff.rfl
theorem lt_iff {a b : Cost} : a < b ↔ a.value < b.value := Iff.rfl

/-- The cost nearest to an integer. -/
def saturate (n : Int) : Cost := ⟨max (-2147483648) (min n 2147483647), by omega⟩

theorem saturate_value (n : Int) :
    (saturate n).value = max (-2147483648) (min n 2147483647) := rfl

@[simp] theorem saturate_of_value (c : Cost) : saturate c.value = c := by
  have := c.inRange
  ext
  simp only [saturate_value]
  omega

def zero : Cost := ⟨0, by decide⟩

instance : Add Cost := ⟨fun a b => saturate (a.value + b.value)⟩
instance : Sub Cost := ⟨fun a b => saturate (a.value - b.value)⟩

/-- The sum from first to last, held to 32 bits after each addition. -/
def sum (cs : List Cost) : Cost := cs.foldl (· + ·) zero

/-- The least of some costs, if there are any. -/
def least? : List Cost → Option Cost
  | [] => none
  | c :: cs => some (cs.foldl (fun a b => if b < a then b else a) c)

/-- The cost nearest to a double, halves going away from zero. What is not a number counts as
zero. -/
def ofFloat (x : Float) : Cost :=
  match Number.Binary64.ofFloat x with
  | .nan => zero
  | .infinite negative => if negative then saturate (-2147483648) else saturate 2147483647
  | .finite negative m e =>
    let n : Int := Number.Binary64.scaled .up m e 0
    saturate (if negative then -n else n)

def toFloat (c : Cost) : Float := Number.floatOfInt c.value

def text (c : Cost) : String := String.ofList ('$' :: Text.integer c.value)

example : (ofFloat 2.5).value = 3 ∧ (ofFloat (-2.5)).value = -3 := by decide +kernel

end Cost
end JourneyPages
