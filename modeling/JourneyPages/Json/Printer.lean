import JourneyPages.Json.Value

/-!
Writing JSON text, in one line or indented.
-/
namespace JourneyPages.Json

def hexDigit (n : Nat) : Char := Nat.digitChar (n % 16)

/-- A character inside a string. Only the quote, the backslash and control characters are
escaped. -/
def escape (c : Char) : List Char :=
  if c = '"' then ['\\', '"']
  else if c = '\\' then ['\\', '\\']
  else if c = '\x08' then ['\\', 'b']
  else if c = '\x0c' then ['\\', 'f']
  else if c = '\n' then ['\\', 'n']
  else if c = '\r' then ['\\', 'r']
  else if c = '\t' then ['\\', 't']
  else if c.toNat < 0x20 then ['\\', 'u', '0', '0', hexDigit (c.toNat / 16), hexDigit c.toNat]
  else [c]

def quote (cs : List Char) : List Char := '"' :: cs.flatMap escape ++ ['"']

/-- A string literal. One that stands for no text is written as the empty string. -/
def quoted : Option String → List Char
  | some s => quote s.toList
  | none => quote []

mutual

/-- The text in one line, without white space. -/
def compact : Json → List Char
  | .null => ['n', 'u', 'l', 'l']
  | .bool true => ['t', 'r', 'u', 'e']
  | .bool false => ['f', 'a', 'l', 's', 'e']
  | .number l => l.text
  | .string s => quoted s
  | .array [] => ['[', ']']
  | .array (v :: vs) => '[' :: compact v ++ compactElements vs ++ [']']
  | .object [] => ['\x7b', '\x7d']
  | .object ((name, v) :: ms) =>
    '\x7b' :: quoted name ++ ':' :: compact v ++ compactMembers ms ++ ['\x7d']

def compactElements : List Json → List Char
  | [] => []
  | v :: vs => ',' :: compact v ++ compactElements vs

def compactMembers : List (Option String × Json) → List Char
  | [] => []
  | (name, v) :: ms => ',' :: quoted name ++ ':' :: compact v ++ compactMembers ms

end

/-- The start of a line at a level of nesting. -/
def newLine (level : Nat) : List Char := '\n' :: List.replicate (2 * level) ' '

mutual

/-- The text with each element and member on a line of its own, two spaces deeper than its
container. Empty containers stay in one line. -/
def indented (level : Nat) : Json → List Char
  | .null => ['n', 'u', 'l', 'l']
  | .bool true => ['t', 'r', 'u', 'e']
  | .bool false => ['f', 'a', 'l', 's', 'e']
  | .number l => l.text
  | .string s => quoted s
  | .array [] => ['[', ']']
  | .array (v :: vs) =>
    '[' :: newLine (level + 1) ++ indented (level + 1) v ++ indentedElements (level + 1) vs ++
      newLine level ++ [']']
  | .object [] => ['\x7b', '\x7d']
  | .object ((name, v) :: ms) =>
    '\x7b' :: newLine (level + 1) ++ quoted name ++ ':' :: ' ' :: indented (level + 1) v ++
      indentedMembers (level + 1) ms ++ newLine level ++ ['\x7d']

def indentedElements (level : Nat) : List Json → List Char
  | [] => []
  | v :: vs => ',' :: newLine level ++ indented level v ++ indentedElements level vs

def indentedMembers (level : Nat) : List (Option String × Json) → List Char
  | [] => []
  | (name, v) :: ms =>
    ',' :: newLine level ++ quoted name ++ ':' :: ' ' :: indented level v ++
      indentedMembers level ms

end

end JourneyPages.Json
