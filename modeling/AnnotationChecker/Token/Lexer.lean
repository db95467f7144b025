import AnnotationChecker.Token.Piece
import AnnotationChecker.Diagnostic
/-!
# From a text to tokens

The pieces of a text are given their places: tokens are kept with their spans, stray characters and
faulty tokens are reported. The tokens always end with an end-of-file token. Once as many issues are
found as are stored, the next token is the last one before it.
-/

namespace AnnotationChecker

/-- The message of a fault in a token. -/
def TokenFault.message : TokenFault → String
  | .unterminatedString => "unterminated string literal"
  | .integerTooLarge => "integer literal does not fit in 64 bits"

/-- The code of a fault in a token. -/
def TokenFault.code : TokenFault → ErrorCode
  | .unterminatedString => .unterminatedString
  | .integerTooLarge => .unexpectedToken

/-- The issue of a fault in a token at a place. -/
def TokenFault.issue (f : TokenFault) (span : Span) : Issue := ⟨f.code, f.message, span⟩

/-- A stray character as messages show it: controls by their two hexadecimal digits. -/
def strayText (c : Char) : String :=
  if c = '\\' then "\\\\"
  else if 0x20 ≤ c.toNat ∧ c.toNat ≤ 0x7e then c.toString
  else "\\x" ++ String.ofList (if c.toNat < 16 then '0' :: Text.hexDigits c.toNat else Text.hexDigits c.toNat)

/-- The issue of a stray character at a place. -/
def strayIssue (c : Char) (span : Span) : Issue :=
  ⟨.unexpectedCharacter, "unexpected character '" ++ strayText c ++ "'", span⟩

/-- The tokens of a text and what is wrong with it, both in the order of the text. -/
structure Lexed where
  tokens : List Token
  issues : List Issue
deriving DecidableEq

namespace Lexed

/-- More tokens and issues in front. -/
def after (tokens : List Token) (issues : List Issue) (l : Lexed) : Lexed :=
  ⟨tokens ++ l.tokens, issues ++ l.issues⟩

/-- The end of the tokens at a place. -/
def ending (p : Position) : Lexed := ⟨[⟨.eof, Span.here p⟩], []⟩

/-- Gives pieces their places from `p` on, when `found` issues were found before. -/
def ofPieces (p : Position) (found : Nat) : List Piece → Lexed
  | [] => ending p
  | piece :: rest =>
    let q := p.after piece.text
    let span := Span.between p q
    match piece.content with
    | .blank => ofPieces q found rest
    | .stray c => (ofPieces q (found + 1) rest).after [] [strayIssue c span]
    | .token kind fault =>
      let issues := (fault.map fun f => f.issue span).toList
      if maxDiagnostics ≤ found + issues.length then (ending q).after [⟨kind, span⟩] issues
      else (ofPieces q (found + issues.length) rest).after [⟨kind, span⟩] issues

/-- The tokens of a text. -/
def ofChars (cs : List Char) : Lexed := ofPieces .start 0 (Piece.pieces 0 cs)

/-- The tokens of a file. -/
def ofFile (f : SourceFile) : Lexed := ofChars f.text.toList

end Lexed

end AnnotationChecker
