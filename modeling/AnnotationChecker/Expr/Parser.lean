import AnnotationChecker.Statement
import AnnotationChecker.Token.Cursor
/-!
# Reading expressions

    Expr = [ "-" ] Number | String { String } | Bytes | Formatted | "True" | "False" | "None"
         | "[" [ Expr { "," Expr } [ "," ] ] "]" | Ident [ "(" [ Expr { "," Expr } [ "," ] ] ")" ]
         | "(" Expr ")"

`Expr.body` reads one level, given the parser for the level below; `Expr.parser` ties them together for
as many levels as the cursor has left.
-/

namespace AnnotationChecker

namespace Parser

/-- String literals that follow a string literal are joined to it. -/
def stringTail (text : String) (prev : Span) (depth : Nat) : List Token → EStateM.Result Issue Cursor String
  | ⟨.string next, s⟩ :: ts => stringTail (text ++ next) s depth ts
  | ts => .ok text ⟨ts, prev, depth⟩

/-- Takes the literals that follow a string literal. -/
def adjacentStrings (first : String) : Parser String := fun c => stringTail first c.prev c.depth c.rest

/-- The number after a minus sign: an integer or a float. -/
def negated {α : Type} (int : Int → α) (float : Binary64 → α) : Parser α := do
  match ← peek with
  | .int v => advance; pure (int (-v))
  | .float v => advance; pure (float v.neg)
  | _ => unexpected "a number after '-'"

end Parser

namespace Expr

open AnnotationChecker.Parser

/-- An item of a list or a call: an expression that is no keyword argument. -/
def item (inner : Parser Expr) : Parser Expr := do
  let e ← inner
  if ← sees (.mark .equals) then reject .unexpectedToken "keyword arguments are not supported"
  else pure e

/-- Items up to a closing mark, and the mark. -/
def items (inner : Parser Expr) (close : Mark) : Parser (List Expr) := do
  let es ← commaList (.mark close) (item inner)
  expect (.mark close)
  pure es

/-- A callee and its arguments. -/
def callWith (inner : Parser Expr) : Parser (Ident × List Expr) := do
  let (f, s) ← identifier
  expect (.mark .leftParen)
  let args ← items inner .rightParen
  pure (⟨f, s⟩, args)

/-- Is the token after the one at the cursor of this kind? -/
def seesNext (k : TokenKind) : Parser Bool := fun c => .ok (c.advance.peek.kind = k) c

/-- An expression of one level, its span still to be set. -/
def body (inner : Parser Expr) : Parser (Span → Expr) := do
  match ← peek with
  | .int v => advance; pure (.int · v)
  | .float v => advance; pure (.float · v)
  | .mark .minus => advance; negated (fun v s => .int s v) fun v s => .float s v
  | .string first =>
    advance
    let text ← adjacentStrings first
    pure (.str · text)
  | .bytes v => advance; pure (.bytes · v)
  | .formatted v => advance; pure (.formatted · v)
  | .keyword .trueWord => advance; pure (.bool · true)
  | .keyword .falseWord => advance; pure (.bool · false)
  | .keyword .noneWord => advance; pure .none
  | .mark .leftBracket =>
    advance
    let es ← items inner .rightBracket
    pure (.list · es)
  | .mark .leftParen =>
    advance
    let e ← inner
    expect (.mark .rightParen)
    pure e.withSpan
  | .identifier x =>
    if ← seesNext (.mark .leftParen) then
      let (callee, args) ← callWith inner
      pure (.call · callee args)
    else
      advance
      if ← sees (.mark .dot) then
        reject .unexpectedToken ("attribute access on '" ++ x ++ "' is not supported")
      else pure (.name · x)
  | _ => unexpected "expression"

/-- An expression, given the parser for the level below. -/
def level (inner : Parser Expr) : Parser Expr := nested (covered (body inner))

/-- An expression of at most `room` levels. -/
def parserWithin : (room : Nat) → Parser Expr
  | 0 => tooDeep
  | room + 1 => level (parserWithin room)

/-- An expression. -/
def parser : Parser Expr := fun c => parserWithin (maxNesting - c.depth) c

/-- A call. -/
def callParser : Parser (Ident × List Expr) := callWith parser

end Expr

end AnnotationChecker
