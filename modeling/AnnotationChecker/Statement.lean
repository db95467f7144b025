import AnnotationChecker.Hint
import AnnotationChecker.Text.Blank
/-!
# Statements

A module is a flat list of statements: declarations, assignments, calls and function signatures. Bodies
of functions are not kept. A statement may carry the verdict that its author expects, written as a
comment behind it.
-/

namespace AnnotationChecker

/-- A name and where it stands. -/
structure Ident where
  name : String
  span : Span
deriving DecidableEq

/-- An expression. A formatted string is a string of unknown value. -/
inductive Expr where
  | int (span : Span) (value : Int)
  | float (span : Span) (value : Binary64)
  | str (span : Span) (value : String)
  | bytes (span : Span) (value : String)
  | formatted (span : Span) (value : String)
  | bool (span : Span) (value : Bool)
  | none (span : Span)
  | list (span : Span) (items : List Expr)
  | name (span : Span) (name : String)
  | call (span : Span) (callee : Ident) (args : List Expr)

namespace Expr

/-- Where an expression stands. -/
def span : Expr → Span
  | .int s _ | .float s _ | .str s _ | .bytes s _ | .formatted s _ | .bool s _ | .none s | .list s _
  | .name s _ | .call s _ _ => s

/-- The same expression with parentheses around it. -/
def withSpan (s : Span) : Expr → Expr
  | .int _ v => .int s v
  | .float _ v => .float s v
  | .str _ v => .str s v
  | .bytes _ v => .bytes s v
  | .formatted _ v => .formatted s v
  | .bool _ v => .bool s v
  | .none _ => .none s
  | .list _ items => .list s items
  | .name _ n => .name s n
  | .call _ f args => .call s f args

end Expr

/-- The verdict that the author of a statement expects. -/
inductive Expectation where
  | ok
  | err
deriving DecidableEq

namespace Expectation

def text : Expectation → String
  | .ok => "OK"
  | .err => "ERR"

/-- Reads the text of a comment: its first word, in either case, is `ok` or `err`. -/
def ofComment? (body : String) : Option Expectation :=
  let word := ((Text.trim body.toList).takeWhile Char.isAlpha).map Char.toLower
  if word = ['o', 'k'] then some .ok
  else if word = ['e', 'r', 'r'] then some .err
  else none

end Expectation

/-- A parameter of a function. -/
structure Param where
  name : Ident
  hint : Hint

/-- What a statement does. -/
inductive StatementKind where
  | declare (name : Ident) (hint : Hint) (init : Option Expr)
  | assign (target : Ident) (value : Expr)
  | call (callee : Ident) (args : List Expr)
  | define (name : Ident) (params : List Param) (ret : Hint)

/-- A statement, where it stands, and what is expected of it. -/
structure Statement where
  kind : StatementKind
  span : Span
  expectation : Option Expectation := none

/-- The expectations that statements carry, each with the position of its statement in the module. -/
def Statement.expectations (statements : List Statement) : List (Nat × Expectation) :=
  statements.zipIdx.filterMap fun (s, i) => s.expectation.map (i, ·)

end AnnotationChecker
