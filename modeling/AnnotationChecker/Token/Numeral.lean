import AnnotationChecker.Token
/-!
# Numerals

A numeral is read from its first character, a digit or a point, and the text that follows it. It is an
integer in radix 2, 8, 10 or 16, or a decimal with a point or an exponent; underscores between digits
carry no meaning. Integers have to fit in 64 bits with a sign.
-/

namespace AnnotationChecker.Numeral

/-- A numeral with its value, and how many characters it takes after its first one. No value means an
integer with a digit outside its radix, with no digit, or of more than 63 bits. -/
structure Reading where
  kind : Option TokenKind
  more : Nat
deriving DecidableEq

/-- The value of a digit; letters stand for ten and up. -/
def digitValue (c : Char) : Nat :=
  if c.isDigit then c.toNat - 48
  else if 'a' ≤ c ∧ c ≤ 'z' then c.toNat - 87
  else c.toNat - 55

/-- A decimal digit, or an underscore. -/
def isDigitOrGap (c : Char) : Bool := c.isDigit || c == '_'

/-- A hexadecimal digit. -/
def isHexDigit (c : Char) : Bool := c.isDigit || ('a' ≤ c && c ≤ 'f') || ('A' ≤ c && c ≤ 'F')

/-- Drops the underscores. -/
def dropGaps (cs : List Char) : List Char := cs.filter (· != '_')

/-- The number that digits stand for. -/
def ofDigits (radix : Nat) (cs : List Char) : Nat := cs.foldl (fun n c => n * radix + digitValue c) 0

/-- Integers are smaller than `2 ^ 63`. -/
def integerLimit : Nat := 0x8000000000000000

/-- The integer with these digits: there is one at least, all are digits of the radix, and the value is
within the limit. -/
def integer? (radix : Nat) (cs : List Char) : Option Int :=
  if !cs.isEmpty && cs.all (fun c => digitValue c < radix) && ofDigits radix cs < integerLimit then
    some (ofDigits radix cs)
  else none

/-- The radix that a letter after a leading zero announces. -/
def radixOf? (c : Char) : Option Nat :=
  if c = 'x' ∨ c = 'X' then some 16
  else if c = 'o' ∨ c = 'O' then some 8
  else if c = 'b' ∨ c = 'B' then some 2
  else none

/-- A point and the digits after it, with their number of characters. A point before a letter or an
underscore does not belong to a numeral. -/
def fraction? : List Char → Option (List Char)
  | '.' :: cs =>
    match cs with
    | c :: _ => if c.isAlpha || c == '_' then none else some (cs.takeWhile isDigitOrGap)
    | [] => some []
  | _ => none

/-- The exponent with these digits, behind a letter and perhaps a sign, with the number of characters of both. -/
def exponentOf (negative : Bool) (before : Nat) (cs : List Char) : Option (Int × Nat) :=
  if cs.head?.any Char.isDigit then
    let run := cs.takeWhile isDigitOrGap
    let size : Int := ofDigits 10 (dropGaps run)
    some (if negative then -size else size, before + run.length)
  else none

/-- An exponent, with its number of characters; a sign may stand before its first digit. -/
def exponent? : List Char → Option (Int × Nat)
  | [] => none
  | e :: cs =>
    if e = 'e' ∨ e = 'E' then
      match cs with
      | '+' :: ds => exponentOf false 2 ds
      | '-' :: ds => exponentOf true 2 ds
      | ds => exponentOf false 1 ds
    else none

/-- The fraction of a decimal: what stands behind a point that comes first, or behind the digits. -/
def fractionOf (c : Char) (cs : List Char) : Option (List Char) :=
  let run := cs.takeWhile isDigitOrGap
  if c = '.' then some run else fraction? (cs.drop run.length)

/-- How many characters the digits and the fraction of a decimal take. -/
def beforeExponent (c : Char) (cs : List Char) : Nat :=
  let run := cs.takeWhile isDigitOrGap
  if c = '.' then run.length
  else run.length + match fraction? (cs.drop run.length) with
    | some ds => 1 + ds.length
    | none => 0

/-- The numeral with these parts, of which `taken` characters stand before the exponent. -/
def ofParts (whole : List Char) (fraction : Option (List Char)) (taken : Nat) (exponent : Option (Int × Nat)) : Reading :=
  match fraction, exponent with
  | none, none => ⟨(integer? 10 (dropGaps whole)).map .int, taken⟩
  | _, _ =>
    let places := dropGaps (fraction.getD [])
    let e := exponent.getD (0, 0)
    ⟨some (.float (.ofDecimal (ofDigits 10 (dropGaps whole ++ places)) (e.1 - places.length))), taken + e.2⟩

/-- A numeral without a radix, from its first character, which is a digit or a point. -/
def decimal (c : Char) (cs : List Char) : Reading :=
  let taken := beforeExponent c cs
  ofParts (if c = '.' then [] else c :: cs.takeWhile isDigitOrGap) (fractionOf c cs) taken (exponent? (cs.drop taken))

/-- Reads a numeral from its first character and the text after it. -/
def read (c : Char) (cs : List Char) : Reading :=
  match (if c = '0' then cs.head?.bind radixOf? else none) with
  | some radix =>
    let run := (cs.drop 1).takeWhile fun c => isHexDigit c || c == '_'
    ⟨(integer? radix (dropGaps run)).map .int, 1 + run.length⟩
  | none => decimal c cs

end AnnotationChecker.Numeral
