import AnnotationChecker.Ty
/-!
# Types as text

A type is shown the way a hint for it would be written. Literals of one kind that stand side by side in a
union share one `Literal[...]`.
-/

namespace AnnotationChecker.Ty

/-- What stands before the next member of a union: nothing, a complete member, or a `Literal[...]` of
one kind that is still open. -/
inductive Gap where
  | first
  | complete
  | group (kind : Primitive)

/-- Completes what stands before a member that starts anew. -/
def Gap.text : Gap → String
  | .first => ""
  | .complete => " | "
  | .group _ => "] | "

/-- Completes what stands before the end of a union. -/
def Gap.close : Gap → String
  | .group _ => "]"
  | _ => ""

/-- A literal after a gap: it joins an open group of its kind or opens one. -/
def Gap.literalText (v : Literal) : Gap → String
  | .group k => (if k = v.kind then ", " else Gap.text (.group k) ++ "Literal[") ++ v.text
  | g => g.text ++ "Literal[" ++ v.text

mutual

/-- A type as it is shown. -/
def text : Ty → String
  | .primitive k => k.text
  | .literal v => "Literal[" ++ v.text ++ "]"
  | .union ts => textMembers .first ts
  | .container c e _ => c ++ "[" ++ text e ++ "]"
  | .callable ps r => "Callable[[" ++ textList ps ++ "], " ++ text r ++ "]"
  | .never => "Never"

/-- The members of a union after a gap. -/
def textMembers (g : Gap) : List Ty → String
  | [] => g.close
  | .literal v :: ts => g.literalText v ++ textMembers (.group v.kind) ts
  | t :: ts => g.text ++ text t ++ textMembers .complete ts

/-- Types with commas between them. -/
def textList : List Ty → String
  | [] => ""
  | [t] => text t
  | t :: t' :: ts => text t ++ ", " ++ textList (t' :: ts)

end

end AnnotationChecker.Ty
