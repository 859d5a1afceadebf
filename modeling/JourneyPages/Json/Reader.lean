import JourneyPages.Json.Token

/-!
Reading JSON text. The containers still open stand on a stack; every token moves the reader one
step, and the text is a value if the last step leaves one value and nothing open.
-/
namespace JourneyPages.Json

namespace Reader

/-- A container that is still open: what it holds so far, the last first, and in an object the
name of the member that is being read. -/
inductive Frame
  | array (before : List Json)
  | object (before : List (Option String × Json)) (name : Option String)

/-- What may come next. -/
inductive State
  /-- A value. -/
  | value (outer : List Frame)
  /-- The first element of an array, or its end. -/
  | element (outer : List Frame)
  /-- The first member of an object, or its end. -/
  | member (outer : List Frame)
  /-- The name of a further member. -/
  | name (before : List (Option String × Json)) (outer : List Frame)
  /-- The colon behind a name. -/
  | colon (before : List (Option String × Json)) (name : Option String) (outer : List Frame)
  /-- A comma, or the end of the innermost container, or of the text. -/
  | after (value : Json) (outer : List Frame)

def start : State := .value []

/-- The state behind a token that starts a value. -/
def onValue (outer : List Frame) : Token → Option State
  | .openArray => some (.element outer)
  | .openObject => some (.member outer)
  | .null => some (.after .null outer)
  | .bool b => some (.after (.bool b) outer)
  | .number l => some (.after (.number l) outer)
  | .string s => some (.after (.string s) outer)
  | _ => none

def step : State → Token → Option State
  | .value outer, t => onValue outer t
  | .element outer, .closeArray => some (.after (.array []) outer)
  | .element outer, t => onValue (.array [] :: outer) t
  | .member outer, .closeObject => some (.after (.object []) outer)
  | .member outer, .string s => some (.colon [] s outer)
  | .name before outer, .string s => some (.colon before s outer)
  | .colon before name outer, .colon => some (.value (.object before name :: outer))
  | .after v (.array before :: outer), .comma => some (.value (.array (v :: before) :: outer))
  | .after v (.array before :: outer), .closeArray =>
    some (.after (.array (v :: before).reverse) outer)
  | .after v (.object before name :: outer), .comma => some (.name ((name, v) :: before) outer)
  | .after v (.object before name :: outer), .closeObject =>
    some (.after (.object ((name, v) :: before).reverse) outer)
  | _, _ => none

/-- The value read, if nothing is left open. -/
def finish : State → Option Json
  | .after v [] => some v
  | _ => none

end Reader

/-- The value that a text denotes. -/
def read? (cs : List Char) : Option Json := do
  let tokens ← Token.all? cs
  Reader.finish (← tokens.foldlM Reader.step Reader.start)

end JourneyPages.Json
