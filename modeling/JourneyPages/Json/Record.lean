import JourneyPages.Json.Value

/-!
Reading JSON values as data: scalars, lists, names out of a fixed set, and records. A record is
written as an object, or as an array of its fields' values in their order.
-/
namespace JourneyPages.Json

def bool? : Json → Option Bool
  | .bool b => some b
  | _ => none

def string? : Json → Option String
  | .string s => s
  | _ => none

/-- An integer from `low` to `high`, written as one. -/
def intIn? (low high : Int) : Json → Option { n : Int // low ≤ n ∧ n ≤ high }
  | .number l =>
    match l.toInt? with
    | some n => if h : low ≤ n ∧ n ≤ high then some ⟨n, h⟩ else none
    | none => none
  | _ => none

/-- An integer of 64 bits with a sign. -/
def int64? (v : Json) : Option Int :=
  (intIn? (-9223372036854775808) 9223372036854775807 v).map (·.val)

/-- A natural number below 2^64. -/
def count? (v : Json) : Option Nat := (intIn? 0 18446744073709551615 v).map (·.val.toNat)

/-- A number that is not too large for a double. -/
def float? : Json → Option Float
  | .number l => l.toFloat?
  | _ => none

def list? {α : Type} (read : Json → Option α) : Json → Option (List α)
  | .array vs => vs.mapM read
  | _ => none

/-- A value that may be `null`. -/
def nullable? {α : Type} (read : Json → Option α) : Json → Option (Option α)
  | .null => some none
  | v => (read v).map some

/-- A name out of a table, written as a string or as an object with that name alone and `null`. -/
def named? {α : Type} (table : List (String × α)) : Json → Option α
  | .string (some s) => table.lookup s
  | .object [(some s, .null)] => table.lookup s
  | _ => none

/-- A field of a record: given, left out of an object, or beyond the end of an array. -/
inductive Slot
  | given (value : Json)
  | absent
  | cutOff

/-- The fields of a record by name. -/
abbrev Record := List (String × Slot)

/-- The field of that name in an object; none if it is given twice. -/
def slotIn? (members : List (Option String × Json)) (name : String) : Option Slot :=
  match members.filter (·.1 == some name) with
  | [] => some .absent
  | [(_, v)] => some (.given v)
  | _ => none

/-- The fields with the given names. Members of other names are left aside, or refused if `strict`
holds; an array must not be longer than the names. -/
def record? (strict : Bool) (names : List String) : Json → Option Record
  | .array vs =>
    if vs.length ≤ names.length then
      some (names.zip (vs.map .given ++ List.replicate (names.length - vs.length) .cutOff))
    else none
  | .object members =>
    if members.all (fun (name, _) => name.any (fun s => !strict || names.contains s)) then
      names.mapM fun name => (slotIn? members name).map fun slot => (name, slot)
    else none
  | _ => none

namespace Record

def slot (r : Record) (name : String) : Slot := (r.lookup name).getD .absent

/-- A field that has to be there. -/
def required? {α : Type} (r : Record) (name : String) (read : Json → Option α) : Option α :=
  match r.slot name with
  | .given v => read v
  | _ => none

/-- A field that an object may leave out, or that may be `null`. -/
def optional? {α : Type} (r : Record) (name : String) (read : Json → Option α) :
    Option (Option α) :=
  match r.slot name with
  | .given v => nullable? read v
  | .absent => some none
  | .cutOff => none

/-- A field with a value of its own when it is left out. -/
def defaulted? {α : Type} (r : Record) (name : String) (read : Json → Option α) (value : α) :
    Option α :=
  match r.slot name with
  | .given v => read v
  | _ => some value

end Record
end JourneyPages.Json
