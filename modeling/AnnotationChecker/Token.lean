import AnnotationChecker.Span
import AnnotationChecker.Binary64.Shortest
import AnnotationChecker.Text.Quoted
/-!
# Tokens

A token is a kind with its payload and the span it was read from. Reserved words and punctuation are
enumerations of their own, each with its spelling; every other operator character is one kind, since
operators matter only in places that are skipped.
-/

namespace AnnotationChecker

/-- The reserved words. -/
inductive Keyword where
  | defWord
  | fromWord
  | importWord
  | asWord
  | passWord
  | returnWord
  | trueWord
  | falseWord
  | noneWord
deriving DecidableEq

namespace Keyword

/-- The spelling of a reserved word. -/
def text : Keyword → String
  | .defWord => "def"
  | .fromWord => "from"
  | .importWord => "import"
  | .asWord => "as"
  | .passWord => "pass"
  | .returnWord => "return"
  | .trueWord => "True"
  | .falseWord => "False"
  | .noneWord => "None"

/-- Every reserved word. -/
def all : List Keyword :=
  [.defWord, .fromWord, .importWord, .asWord, .passWord, .returnWord, .trueWord, .falseWord, .noneWord]

/-- The reserved word with a spelling. -/
def ofText? (s : String) : Option Keyword := all.find? fun k => k.text == s

theorem ofText?_text (k : Keyword) : ofText? k.text = some k := by
  cases k <;> decide +kernel

theorem text_of_ofText? {s : String} {k : Keyword} (h : ofText? s = some k) : k.text = s := by
  simpa using List.find?_some h

end Keyword

/-- The punctuation that has a meaning in declarations. -/
inductive Mark where
  | leftParen
  | rightParen
  | leftBracket
  | rightBracket
  | leftBrace
  | rightBrace
  | comma
  | colon
  | dot
  | equals
  | arrow
  | pipe
  | minus
deriving DecidableEq

/-- The spelling of a punctuation mark. -/
def Mark.text : Mark → String
  | .leftParen => "("
  | .rightParen => ")"
  | .leftBracket => "["
  | .rightBracket => "]"
  | .leftBrace => "\x7b"
  | .rightBrace => "\x7d"
  | .comma => ","
  | .colon => ":"
  | .dot => "."
  | .equals => "="
  | .arrow => "->"
  | .pipe => "|"
  | .minus => "-"

/-- What a token is. A comment carries the text after its number sign. -/
inductive TokenKind where
  | int (value : Int)
  | float (value : Binary64)
  | string (value : String)
  | bytes (value : String)
  | formatted (value : String)
  | identifier (name : String)
  | keyword (word : Keyword)
  | mark (mark : Mark)
  | operator (char : Char)
  | comment (body : String)
  | newline
  | eof
deriving DecidableEq

namespace TokenKind

/-- A token as messages show it. -/
def text : TokenKind → String
  | .int v => toString v
  | .float v => v.text
  | .string s => Text.quote s
  | .bytes s => "b" ++ Text.quote s
  | .formatted s => "f" ++ Text.quote s
  | .identifier s => s
  | .keyword w => w.text
  | .mark m => m.text
  | .operator c => c.toString
  | .comment _ => "comment"
  | .newline => "newline"
  | .eof => "end of file"

/-- Does the token end a logical line? -/
def isLineEnd : TokenKind → Bool
  | .newline | .eof => true
  | _ => false

end TokenKind

/-- A token and where it stands. -/
structure Token where
  kind : TokenKind
  span : Span
deriving DecidableEq

end AnnotationChecker
