import AnnotationChecker.Statement
/-!
# Induction on expressions

The items of a list display and the arguments of a call are expressions; `Expr.inductionOn` gives the claim
for each of them.
-/

namespace AnnotationChecker.Expr

/-- Induction on an expression, with the claim for every item and every argument. -/
@[elab_as_elim]
theorem inductionOn {P : Expr → Prop} (e : Expr) (int : ∀ s v, P (.int s v)) (float : ∀ s v, P (.float s v))
    (str : ∀ s v, P (.str s v)) (bytes : ∀ s v, P (.bytes s v)) (formatted : ∀ s v, P (.formatted s v))
    (bool : ∀ s v, P (.bool s v)) (none : ∀ s, P (.none s)) (list : ∀ s items, (∀ e ∈ items, P e) → P (.list s items))
    (name : ∀ s n, P (.name s n)) (call : ∀ s f args, (∀ e ∈ args, P e) → P (.call s f args)) : P e := by
  induction hn : sizeOf e using Nat.strongRecOn generalizing e with
  | _ n ih =>
    cases e with
    | int s v => exact int s v
    | float s v => exact float s v
    | str s v => exact str s v
    | bytes s v => exact bytes s v
    | formatted s v => exact formatted s v
    | bool s v => exact bool s v
    | none s => exact none s
    | name s n => exact name s n
    | list s items =>
      refine list s items (fun e he => ih _ ?_ e rfl)
      have := List.sizeOf_lt_of_mem he
      simp only [Expr.list.sizeOf_spec] at hn
      omega
    | call s f args =>
      refine call s f args (fun e he => ih _ ?_ e rfl)
      have := List.sizeOf_lt_of_mem he
      simp only [Expr.call.sizeOf_spec] at hn
      omega

end AnnotationChecker.Expr
