import AnnotationChecker.Expr.Parser
/-!
# Reading type hints

    Hint  = Atom { "|" Atom }
    Atom  = Dotted [ "[" Hint { "," Hint } [ "," ] "]" ] | "[" [ Hint { "," Hint } [ "," ] ] "]"
          | "(" Hint ")" | Const
    Const = [ "-" ] Int | [ "-" ] Float | String | "True" | "False" | "None"

Every `|` puts what stands before it one level deeper, so a chain takes a level for each of them; the
levels are given back at the end of the chain.
-/

namespace AnnotationChecker.Hint

open AnnotationChecker.Parser

/-- A constant. -/
def constant : Parser Const := do
  match ← peek with
  | .int v => advance; pure (.int v)
  | .float v => advance; pure (.float v)
  | .string s => advance; pure (.str s)
  | .keyword .trueWord => advance; pure (.bool true)
  | .keyword .falseWord => advance; pure (.bool false)
  | .keyword .noneWord => advance; pure .none
  | .mark .minus => advance; negated .int .float
  | _ => unexpected "type"

/-- A subscript, once its name and what its brackets hold are read; a bracket has to close it. -/
def arguments (base : String) (args : List Hint) : Parser (Span → Hint) :=
  if args.isEmpty then reject .unexpectedToken ("'" ++ base ++ "[]' needs at least one type argument")
  else do
    expect (.mark .rightBracket)
    pure (.subscript · base args)

/-- A part of a chain, its span still to be set, given the parser for the hints inside of it. -/
def body (inner : Parser Hint) : Parser (Span → Hint) := do
  match ← peek with
  | .identifier _ =>
    let (n, _) ← dottedName
    if ← eat (.mark .leftBracket) then
      let args ← commaList (.mark .rightBracket) inner
      arguments n args
    else pure (.name · n)
  | .mark .leftBracket =>
    advance
    let items ← commaList (.mark .rightBracket) inner
    expect (.mark .rightBracket)
    pure (.list · items)
  | .mark .leftParen =>
    advance
    let h ← inner
    expect (.mark .rightParen)
    pure h.withSpan
  | _ =>
    let value ← constant
    pure (.const · value)

/-- A part of a chain, given the parser for the hints inside of it. -/
def level (inner : Parser Hint) : Parser Hint := nested (covered (body inner))

mutual

/-- A part of a chain, when `room` levels are left. -/
def atomWithin : (room : Nat) → Parser Hint
  | 0 => tooDeep
  | room + 1 => level (levelled do
      let first ← atomWithin room
      chainWithin room first)

/-- The rest of a chain after its left part, when `room` levels are left. -/
def chainWithin : (room : Nat) → Hint → Parser Hint
  | 0, left => do
    if ← eat (.mark .pipe) then tooDeep else pure left
  | room + 1, left => do
    if ← eat (.mark .pipe) then
      enter
      let right ← atomWithin room
      chainWithin room (.or (left.span.merge right.span) left right)
    else pure left

end

/-- A hint, when `room` levels are left. -/
def parserWithin (room : Nat) : Parser Hint := levelled do
  let first ← atomWithin room
  chainWithin room first

/-- A hint. -/
def parser : Parser Hint := fun c => parserWithin (maxNesting - c.depth) c

end AnnotationChecker.Hint
