import AnnotationChecker.Statement
import AnnotationChecker.Proofs.Hint.Plain
/-!
# Plain statements and the names they mention

The plain form of a statement has no places. Statements that differ in the places of their parts only have the
same plain form, and so have those whose hints group a chain of `|` differently. A statement mentions the names
whose types its verdict may depend on: those in its expressions, and the target or the callee. The name that a
declaration declares is not among them.
-/

namespace AnnotationChecker

open Hint (nowhere)

namespace Expr

mutual

/-- An expression without its places. -/
def plain : Expr → Expr
  | .int _ v => .int nowhere v
  | .float _ v => .float nowhere v
  | .str _ v => .str nowhere v
  | .bytes _ v => .bytes nowhere v
  | .formatted _ v => .formatted nowhere v
  | .bool _ v => .bool nowhere v
  | .none _ => .none nowhere
  | .list _ items => .list nowhere (plainList items)
  | .name _ n => .name nowhere n
  | .call _ f args => .call nowhere ⟨f.name, nowhere⟩ (plainList args)

/-- The plain form of each expression of a list. -/
def plainList : List Expr → List Expr
  | [] => []
  | e :: es => plain e :: plainList es

end

@[simp] theorem plainList_eq_map (es : List Expr) : plainList es = es.map plain := by
  induction es with
  | nil => rfl
  | cons e es ih => simp [plainList, ih]

mutual

/-- The names in an expression. -/
def mentions : Expr → List String
  | .list _ items => mentionsList items
  | .name _ n => [n]
  | .call _ f args => f.name :: mentionsList args
  | _ => []

/-- The names in the expressions of a list. -/
def mentionsList : List Expr → List String
  | [] => []
  | e :: es => mentions e ++ mentionsList es

end

theorem mem_mentionsList {n : String} {es : List Expr} : n ∈ mentionsList es ↔ ∃ e ∈ es, n ∈ e.mentions := by
  induction es with
  | nil => simp [mentionsList]
  | cons e es ih => simp [mentionsList, ih]

end Expr

/-- A parameter without its places. -/
def Param.plain (p : Param) : Param := ⟨⟨p.name.name, nowhere⟩, p.hint.plain⟩

namespace StatementKind

/-- A statement without its places. -/
def plain : StatementKind → StatementKind
  | .declare x h init => .declare ⟨x.name, nowhere⟩ h.plain (init.map Expr.plain)
  | .assign x e => .assign ⟨x.name, nowhere⟩ e.plain
  | .call f args => .call ⟨f.name, nowhere⟩ (args.map Expr.plain)
  | .define f ps t => .define ⟨f.name, nowhere⟩ (ps.map Param.plain) t.plain

/-- The names that a statement mentions. -/
def mentions : StatementKind → List String
  | .declare _ _ (some e) => e.mentions
  | .declare _ _ none => []
  | .assign x e => x.name :: e.mentions
  | .call f args => f.name :: Expr.mentionsList args
  | .define _ _ _ => []

end StatementKind

/-- The statement does this, wherever its parts stand and whatever is expected of it. -/
def Statement.Does (s : Statement) (k : StatementKind) : Prop := s.kind.plain = k.plain

theorem Statement.does_mk (k : StatementKind) (span : Span) (expectation : Option Expectation) :
    Statement.Does ⟨k, span, expectation⟩ k := rfl

end AnnotationChecker
