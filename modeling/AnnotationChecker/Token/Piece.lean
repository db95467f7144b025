import AnnotationChecker.Source
import AnnotationChecker.Token.Numeral
import AnnotationChecker.Token.StringBody
/-!
# Pieces of a text

A text is cut into pieces: tokens, blanks between them, and stray characters that start no token. The
cut looks at nothing but the text and the number of open brackets, inside of which line ends and
comments are blank. Put together the pieces are the text (`text_pieces`).

The number of open brackets is a natural number without a bound, and stays at zero when there is none to
close. Texts with fewer than 2^32 brackets are meant; there a counter of 32 bits gives the same.
-/

namespace AnnotationChecker

/-- What is wrong with a token that was read all the same. -/
inductive TokenFault where
  | unterminatedString
  | integerTooLarge
deriving DecidableEq

/-- What a piece of a text is. -/
inductive Content where
  | blank
  | stray (c : Char)
  | token (kind : TokenKind) (fault : Option TokenFault)
deriving DecidableEq

/-- A piece of a text. -/
structure Piece where
  content : Content
  text : List Char
deriving DecidableEq

namespace Piece

/-- A piece without its text: what it is, and how many characters it takes after its first one. -/
structure Reading where
  content : Content
  more : Nat
deriving DecidableEq

/-- A token without a fault. -/
def Reading.token (kind : TokenKind) (more : Nat) : Reading := ⟨.token kind none, more⟩

/-- The characters that may stand in a name: ASCII letters and digits, the underscore, and everything
outside ASCII. -/
def isWordChar (c : Char) : Bool := c.isAlphanum || c == '_' || 0x80 ≤ c.toNat

/-- The characters that may start a name. -/
def isWordStart (c : Char) : Bool := c.isAlpha || c == '_' || 0x80 ≤ c.toNat

/-- The mark that one character makes. -/
def mark? (c : Char) : Option Mark :=
  if c = '(' then some .leftParen
  else if c = ')' then some .rightParen
  else if c = '[' then some .leftBracket
  else if c = ']' then some .rightBracket
  else if c = '\x7b' then some .leftBrace
  else if c = '\x7d' then some .rightBrace
  else if c = ',' then some .comma
  else if c = ':' then some .colon
  else if c = '.' then some .dot
  else if c = '|' then some .pipe
  else none

/-- The characters that are operators by themselves. -/
def isOperator (c : Char) : Bool :=
  "+*/%<>!&^~@;".toList.contains c

/-- A literal whose first quote was read; `before` counts the characters between the first one of the
piece and the body. -/
def literal (f : StringBody.Flavor) (before : Nat) (b : StringBody.Body) : Reading :=
  ⟨.token (f.kind b.value) (if b.closed then none else some .unterminatedString), before + b.length⟩

/-- The token of a word without a quote behind it: a reserved word, or a name. -/
def wordKind (cs : List Char) : TokenKind :=
  match Keyword.ofText? (String.ofList cs) with
  | some k => .keyword k
  | none => .identifier (String.ofList cs)

/-- A name, a reserved word, or a literal with a marker. -/
def word (c : Char) (cs : List Char) : Reading :=
  let run := cs.takeWhile isWordChar
  let plain : Reading := .token (wordKind (c :: run)) run.length
  match cs.drop run.length with
  | q :: rest =>
    if q = '\x22' ∨ q = '\x27' then
      match StringBody.Flavor.ofMarker? (c :: run) with
      | some f => literal f (run.length + 1) (StringBody.readQuoted q f.raw rest)
      | none => plain
    else plain
  | [] => plain

/-- A numeral. One without a value counts as zero. -/
def numeral (c : Char) (cs : List Char) : Reading :=
  let r := Numeral.read c cs
  match r.kind with
  | some kind => .token kind r.more
  | none => ⟨.token (.int 0) (some .integerTooLarge), r.more⟩

/-- A backslash: before a line end it joins two lines. -/
def backslash : List Char → Reading
  | '\n' :: _ => ⟨.blank, 1⟩
  | '\r' :: '\n' :: _ => ⟨.blank, 2⟩
  | _ => ⟨.stray '\\', 0⟩

/-- What a line end is under a number of open brackets. -/
def lineEnd (depth : Nat) : Content := if 0 < depth then .blank else .token .newline none

/-- What a comment is under a number of open brackets. -/
def commentContent (depth : Nat) (body : List Char) : Content :=
  if 0 < depth then .blank else .token (.comment (String.ofList (trimReturns body))) none

/-- A comment, up to the end of its line. -/
def comment (depth : Nat) (cs : List Char) : Reading :=
  let body := cs.takeWhile (· != '\n')
  ⟨commentContent depth body, body.length⟩

/-- Reads the piece that starts with `c`, under a number of open brackets. -/
def read (depth : Nat) (c : Char) (cs : List Char) : Reading :=
  if c = ' ' ∨ c = '\t' ∨ c = '\r' ∨ c = '\x0c' then ⟨.blank, 0⟩
  else if c = '\\' then backslash cs
  else if c = '\n' then ⟨lineEnd depth, 0⟩
  else if c = '#' then comment depth cs
  else if c = '\x22' ∨ c = '\x27' then literal .plain 0 (StringBody.readQuoted c false cs)
  else if c.isDigit ∨ (c = '.' ∧ (cs.head?.any Char.isDigit)) then numeral c cs
  else if isWordStart c then word c cs
  else if c = '=' then
    if cs.head? = some '=' then .token (.operator '=') 1 else .token (.mark .equals) 0
  else if c = '-' then
    if cs.head? = some '>' then .token (.mark .arrow) 1 else .token (.mark .minus) 0
  else match mark? c with
    | some m => .token (.mark m) 0
    | none => if isOperator c then .token (.operator c) 0 else ⟨.stray c, 0⟩

/-- The number of open brackets after a piece; a closing bracket without a partner does not count. -/
def openAfter (depth : Nat) : Content → Nat
  | .token (.mark .leftParen) _ | .token (.mark .leftBracket) _ | .token (.mark .leftBrace) _ => depth + 1
  | .token (.mark .rightParen) _ | .token (.mark .rightBracket) _ | .token (.mark .rightBrace) _ => depth - 1
  | _ => depth

/-- Cuts a text into pieces, after `skip` more characters of a piece that was cut already. -/
def piecesAfter : (skip depth : Nat) → List Char → List Piece
  | _, _, [] => []
  | skip + 1, depth, _ :: cs => piecesAfter skip depth cs
  | 0, depth, c :: cs =>
    let r := read depth c cs
    ⟨r.content, c :: cs.take r.more⟩ :: piecesAfter r.more (openAfter depth r.content) cs

/-- Cuts a text into pieces. -/
def pieces (depth : Nat) (cs : List Char) : List Piece := piecesAfter 0 depth cs

theorem piecesAfter_eq_drop (skip depth : Nat) (cs : List Char) :
    piecesAfter skip depth cs = pieces depth (cs.drop skip) := by
  induction cs generalizing skip with
  | nil => cases skip <;> rfl
  | cons c cs ih => cases skip with
    | zero => rfl
    | succ n => simpa [piecesAfter] using ih n

@[simp] theorem pieces_nil (depth : Nat) : pieces depth [] = [] := rfl

theorem pieces_cons (depth : Nat) (c : Char) (cs : List Char) :
    pieces depth (c :: cs) =
      ⟨(read depth c cs).content, c :: cs.take (read depth c cs).more⟩ ::
        pieces (openAfter depth (read depth c cs).content) (cs.drop (read depth c cs).more) := by
  rw [← piecesAfter_eq_drop]; rfl

theorem text_pieces (depth : Nat) (cs : List Char) : (pieces depth cs).flatMap Piece.text = cs := by
  induction h : cs.length using Nat.strongRecOn generalizing depth cs with
  | _ n ih =>
    cases cs with
    | nil => rfl
    | cons c cs =>
      have hlt : (cs.drop (read depth c cs).more).length < n := by
        simp only [List.length_drop, List.length_cons] at h ⊢; omega
      simp [pieces_cons, ih _ hlt _ _ rfl]

end Piece

end AnnotationChecker
