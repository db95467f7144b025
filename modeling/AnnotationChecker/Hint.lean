import AnnotationChecker.Token
/-!
# Type hints as written

A hint is the annotation of a variable, a parameter or a result, before anything is known about its
names. Every node carries its span; parentheses leave no node but widen the span of what they hold. A
hint is shown without parentheses, since `|` is read from the left whatever they say.
-/

namespace AnnotationChecker

/-- A constant inside a hint. -/
inductive Const where
  | int (value : Int)
  | float (value : Binary64)
  | str (value : String)
  | bool (value : Bool)
  | none
deriving DecidableEq

/-- The spelling of a truth value. -/
def boolText (b : Bool) : String := if b then "True" else "False"

/-- A constant as it is written. -/
def Const.text : Const → String
  | .int v => toString v
  | .float v => v.text
  | .str s => Text.quote s
  | .bool b => boolText b
  | .none => "None"

/-- A type hint. Dotted names are joined; a list is the parameter list of a callable. -/
inductive Hint where
  | name (span : Span) (name : String)
  | subscript (span : Span) (base : String) (args : List Hint)
  | list (span : Span) (items : List Hint)
  | or (span : Span) (left right : Hint)
  | const (span : Span) (value : Const)

namespace Hint

/-- Where a hint stands. -/
def span : Hint → Span
  | .name s _ | .subscript s _ _ | .list s _ | .or s _ _ | .const s _ => s

/-- The same hint with parentheses around it. -/
def withSpan (s : Span) : Hint → Hint
  | .name _ n => .name s n
  | .subscript _ b args => .subscript s b args
  | .list _ items => .list s items
  | .or _ l r => .or s l r
  | .const _ v => .const s v

mutual

/-- A hint as it is written. -/
def text : Hint → String
  | .name _ n => n
  | .subscript _ base args => base ++ "[" ++ textList args ++ "]"
  | .list _ items => "[" ++ textList items ++ "]"
  | .or _ l r => text l ++ " | " ++ text r
  | .const _ v => v.text

/-- Hints with commas between them. -/
def textList : List Hint → String
  | [] => ""
  | [h] => text h
  | h :: h' :: hs => text h ++ ", " ++ textList (h' :: hs)

end

end Hint

end AnnotationChecker
