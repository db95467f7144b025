import AnnotationChecker.Text.Unprintable
import AnnotationChecker.Text.GraphemeExtend
/-!
# Quoted text

A text is quoted between double quotes. A quote, a backslash and the four common controls are written
with a backslash and one letter; a character that would not show by itself (`showsItself`) is written
`\u{hex}`; all else stands for itself.
-/

namespace AnnotationChecker.Text

/-- Does a reader see which character this is, when it stands in a text by itself? -/
def showsItself (c : Char) : Bool :=
  (0x20 ≤ c.toNat && c.toNat ≤ 0x7e) || !(graphemeExtend.has c || unprintable.has c)

/-- The hexadecimal digits of a number, without leading zeros. -/
def hexDigits (n : Nat) : List Char := Nat.toDigits 16 n

/-- The escape letter of a character that has one. -/
def escapeLetter (c : Char) : Option Char :=
  if c = '\x00' then some '0'
  else if c = '\t' then some 't'
  else if c = '\r' then some 'r'
  else if c = '\n' then some 'n'
  else if c = '\\' then some '\\'
  else if c = '\x22' then some '\x22'
  else none

/-- How a character is written between quotes. -/
def quoteChar (c : Char) : List Char :=
  match escapeLetter c with
  | some l => ['\\', l]
  | none => if showsItself c then [c] else ['\\', 'u', '\x7b'] ++ hexDigits c.toNat ++ ['\x7d']

/-- The characters of a quoted text. -/
def quoteChars (cs : List Char) : List Char := '\x22' :: cs.flatMap quoteChar ++ ['\x22']

/-- A text between double quotes. -/
def quote (s : String) : String := String.ofList (quoteChars s.toList)

end AnnotationChecker.Text
