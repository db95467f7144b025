import AnnotationChecker.Statement
import AnnotationChecker.Token.Cursor
/-!
# Lines of tokens

A logical line is a run of tokens up to a newline token or the end of the file. Blank lines are skipped,
broken ones are dropped, and the indented lines below a header form a block that is skipped as a whole.
None of these goes past the end of the file.
-/

namespace AnnotationChecker

namespace TokenKind

def isComment : TokenKind → Bool
  | .comment _ => true
  | _ => false

end TokenKind

namespace Line

/-- The first of the tokens; past the last token there is the end of the file. -/
def head (ts : List Token) : Token := ts.headD ⟨.eof, Span.point 1 1⟩

/-- Do the tokens start with the end of a line? -/
def endsHere (ts : List Token) : Bool := (head ts).kind.isLineEnd

/-- Drops the rest of a line and its newline. -/
def drop : List Token → List Token
  | [] => []
  | t :: ts => if t.kind = .eof then t :: ts else if t.kind = .newline then ts else drop ts

theorem length_drop_le (ts : List Token) : (drop ts).length ≤ ts.length := by
  induction ts with
  | nil => exact Nat.le_refl _
  | cons t ts ih =>
    rw [drop]
    split
    · exact Nat.le_refl _
    · split
      · exact Nat.le_succ _
      · exact Nat.le_succ_of_le ih

/-- Drops empty lines and lines that hold a comment only. -/
def skipBlank : List Token → List Token
  | [] => []
  | t :: ts =>
    if t.kind = .newline ∨ (t.kind.isComment = true ∧ endsHere ts = true) then skipBlank ts else t :: ts

/-- Drops the indented lines in front, and counts those of them that hold more than a comment. -/
def skipBlock : List Token → Nat × List Token
  | [] => (0, [])
  | t :: ts =>
    if t.kind = .newline then skipBlock ts
    else if t.kind = .eof then (0, t :: ts)
    else if t.kind.isComment = true ∧ endsHere ts = true then skipBlock (drop ts)
    else if 1 < t.span.startCol then
      let block := skipBlock (drop ts)
      (block.1 + 1, block.2)
    else (0, t :: ts)
termination_by ts => ts.length
decreasing_by
  · simp
  · exact Nat.lt_succ_of_le (length_drop_le ts)
  · exact Nat.lt_succ_of_le (length_drop_le ts)

/-- Drops tokens up to a comment or the end of the line. -/
def skipInline : List Token → List Token
  | [] => []
  | t :: ts => if t.kind.isComment = true ∨ t.kind.isLineEnd = true then t :: ts else skipInline ts

/-- The end of a line: what its comment expects, and an issue when more than a comment was left. -/
structure Ending where
  expectation : Option Expectation
  issues : List Issue
  rest : List Token

/-- Ends a line without a comment: there has to be nothing more. -/
def close (expectation : Option Expectation) (ts : List Token) : Ending :=
  let t := head ts
  if t.kind = .eof then ⟨expectation, [], ts⟩
  else if t.kind = .newline then ⟨expectation, [], ts.drop 1⟩
  else
    ⟨expectation, [⟨.unexpectedToken, "expected end of line, got '" ++ t.kind.text ++ "'", t.span⟩], drop ts⟩

/-- Ends a line, with an optional comment. -/
def finish (ts : List Token) : Ending :=
  match (head ts).kind with
  | .comment body => close (Expectation.ofComment? body) (ts.drop 1)
  | _ => close none ts

end Line

end AnnotationChecker
