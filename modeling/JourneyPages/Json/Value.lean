import JourneyPages.Number.Literal
import JourneyPages.Number.Shortest

/-!
JSON values as they are written: numbers keep their literals and objects their members in order,
repeated names included, so that each reader of a document can hold them to its own rules.
-/
namespace JourneyPages

/-- A JSON value. A string, or the name of a member, is `none` if it is written with a surrogate
that has no partner: such a literal is well formed but stands for no text. -/
inductive Json
  | null
  | bool (b : Bool)
  | number (literal : Number.Literal)
  | string (text : Option String)
  | array (elements : List Json)
  | object (members : List (Option String × Json))

namespace Json

instance : Inhabited Json := ⟨.null⟩

def text (s : String) : Json := .string (some s)
def ofChars (cs : List Char) : Json := .text (String.ofList cs)
def int (n : Int) : Json := .number (.ofInt n)

/-- An object with the given members. -/
def record (members : List (String × Json)) : Json :=
  .object (members.map fun (name, value) => (some name, value))

/-- The value, or `null` if there is none. -/
def orNull {α : Type} (write : α → Json) : Option α → Json
  | some x => write x
  | none => .null

/-- Numbers from 10^-5 on and below 10^16 are written out. -/
def layout : Number.Layout := ⟨-5, 16⟩

/-- A finite double as the shortest number that stands for it; `null` for the others. -/
def float (x : Float) : Json := orNull .number (Number.shortest? layout x)

end Json
end JourneyPages
