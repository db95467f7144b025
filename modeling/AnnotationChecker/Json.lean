/-!
# JSON values

A value keeps the members of its objects in order, repeated keys included. Numbers are integers or,
with a fraction, an exponent or a sign before zero, the text they are written with.

A value is written in one of two layouts: on one line without blanks, or with each item and member on a
line of its own, indented by two blanks a level. Strings escape the quote, the backslash and the
controls, and nothing else.
-/

namespace AnnotationChecker

/-- A JSON value. -/
inductive Json where
  | null
  | bool (value : Bool)
  | int (value : Int)
  | decimal (text : String)
  | string (value : String)
  | array (items : List Json)
  | object (members : List (String × Json))

namespace Json

/-- An array of strings. -/
def strings (list : List String) : Json := .array (list.map .string)

/-- A natural number. -/
def nat (n : Nat) : Json := .int n

/-- A member that is left out when there is no value. -/
def optional (key : String) (value : Option Json) : List (String × Json) :=
  match value with
  | some v => [(key, v)]
  | none => []

/-! ## Writing -/

/-- A hexadecimal digit. -/
def hexDigit (n : Nat) : Char := Nat.digitChar n

/-- How a character is written inside a string. -/
def escapeChar (c : Char) : List Char :=
  if c = '\x22' then ['\\', '\x22']
  else if c = '\\' then ['\\', '\\']
  else if c = '\x08' then ['\\', 'b']
  else if c = '\x0c' then ['\\', 'f']
  else if c = '\n' then ['\\', 'n']
  else if c = '\r' then ['\\', 'r']
  else if c = '\t' then ['\\', 't']
  else if c.toNat < 0x20 then ['\\', 'u', '0', '0', hexDigit (c.toNat / 16), hexDigit (c.toNat % 16)]
  else [c]

/-- A string with its quotes. -/
def writeString (s : String) : List Char := '\x22' :: s.toList.flatMap escapeChar ++ ['\x22']

/-- How a value is laid out. -/
inductive Layout where
  | compact
  | indented
deriving DecidableEq

/-- What stands before an item at a level. -/
def Layout.lineStart : Layout → Nat → List Char
  | .compact, _ => []
  | .indented, level => '\n' :: List.replicate (2 * level) ' '

/-- What stands between a key and its value. -/
def Layout.colon : Layout → List Char
  | .compact => [':']
  | .indented => [':', ' ']

mutual

/-- Writes a value whose brackets stand at a level. -/
def write (l : Layout) (level : Nat) : Json → List Char
  | .null => "null".toList
  | .bool b => (if b then "true" else "false").toList
  | .int n => (toString n).toList
  | .decimal t => t.toList
  | .string s => writeString s
  | .array [] => ['[', ']']
  | .array (v :: vs) =>
    '[' :: l.lineStart (level + 1) ++ write l (level + 1) v ++ writeItems l (level + 1) vs
      ++ l.lineStart level ++ [']']
  | .object [] => ['\x7b', '\x7d']
  | .object ((k, v) :: ms) =>
    '\x7b' :: l.lineStart (level + 1) ++ writeString k ++ l.colon ++ write l (level + 1) v
      ++ writeMembers l (level + 1) ms ++ l.lineStart level ++ ['\x7d']

/-- Writes the items after the first one. -/
def writeItems (l : Layout) (level : Nat) : List Json → List Char
  | [] => []
  | v :: vs => ',' :: l.lineStart level ++ write l level v ++ writeItems l level vs

/-- Writes the members after the first one. -/
def writeMembers (l : Layout) (level : Nat) : List (String × Json) → List Char
  | [] => []
  | (k, v) :: ms =>
    ',' :: l.lineStart level ++ writeString k ++ l.colon ++ write l level v ++ writeMembers l level ms

end

/-- The text of a value on one line. -/
def compact (v : Json) : String := String.ofList (v.write .compact 0)

/-- The text of a value over indented lines. -/
def pretty (v : Json) : String := String.ofList (v.write .indented 0)

end Json

end AnnotationChecker
