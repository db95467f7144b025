import AnnotationChecker.Proofs.Checker.Locality
import AnnotationChecker.Proofs.Checker.Typing
/-!
# Giving a value to a type

A value meets a type where a variable is declared with it, where it is assigned to a variable of that type, and where
it is passed for a parameter of that type. The checker does these three in different orders, and binds names in
between. They agree all the same, since the names that are bound are none that the value mentions
(`Checker.giving_agrees`): a call says for which argument the value does not fit, and that is all.
-/

namespace AnnotationChecker

namespace Checker

variable {r : Registry} {env : Bindings}

/-! ## Statements by what they do -/

theorem accepts_of_does {s : Statement} {k : StatementKind} (hs : s.Does k) : accepts r env s.kind = accepts r env k := by
  rw [← accepts_plain, hs, accepts_plain]

/-- A statement declares what its plain form does. -/
theorem declares_plain {k : StatementKind} {name : String} {t : Ty} :
    Declares r k.plain name t ↔ Declares r k name t := by
  cases k <;> simp [declares_iff, declared?, StatementKind.plain, typeOfFunction, typesOfParams_plain,
    typeOfHint_plain]

theorem declares_of_does {s : Statement} {k : StatementKind} (hs : s.Does k) {name : String} {t : Ty} :
    Declares r s.kind name t ↔ Declares r k name t := by
  rw [← declares_plain, hs, declares_plain]

/-- The last verdict on a module is that on its last statement, under the bindings of those before it. -/
theorem getLast?_verdicts_check (before : List Statement) (s : Statement) :
    (check r env (before ++ [s])).1.verdicts.getLast? =
      some (verdict r (run r env 0 before).2 before.length s) := by
  rw [verdicts_check, run_append, Nat.zero_add]
  simp [run]

/-- The last verdict behind one more statement is given under the bindings that this one leaves. -/
theorem getLast?_verdicts_check_pair (before : List Statement) (s s' : Statement) :
    (check r env (before ++ [s, s'])).1.verdicts.getLast? =
      some (verdict r (bindingsAfter r (run r env 0 before).2 before.length s.kind) (before.length + 1) s') := by
  rw [List.append_cons, getLast?_verdicts_check, run_append, List.length_append, Nat.zero_add]
  rfl

/-! ## Values -/

/-- An expression keeps its type behind a statement that declares none of the names in it. -/
theorem infer_bindingsAfter {index : Nat} {k : StatementKind} {e : Expr}
    (h : ∀ name ∈ e.mentions, ∀ t, ¬ Declares r k name t) :
    infer r (bindingsAfter r env index k) e = infer r env e := by
  have hagree : AgreeOn (fun _ => False) (bindingsAfter r env index k) env e.mentions := by
    intro name hn
    have htype : (bindingsAfter r env index k).typeOf? name = env.typeOf? name := by
      ext t
      simp [typeOf?_bindingsAfter, h name hn]
    unfold typeOfName
    rw [htype]
    exact .refl _
  simpa [SameUnless] using hagree.infer (r := r)

/-- A declaration judges its value. -/
theorem accepts_declaration {h : Hint} {t : Ty} (ht : h.meaning r = .ok t) {x : Ident} {e : Expr} :
    accepts r env (.declare x h (some e)) = fitsValue r env e t := by
  rw [accepts, typeOfHint_eq_ok.2 ht]
  rfl

theorem accepts_assignment {x : Ident} {t : Ty} (hx : env.typeOf? x.name = some t) {e : Expr} :
    accepts r env (.assign x e) = fitsValue r env e t := by
  rw [accepts, typeOfName_eq_ok.2 hx]
  rfl

/-- A call with one argument judges it, and says that it does so when the argument has a type. -/
theorem accepts_call {f : Ident} {t u : Ty} (hf : env.typeOf? f.name = some (.callable [t] u)) {e : Expr} :
    accepts r env (.call f [e]) =
      match infer r env e with
      | .ok found => (fits r found t).mapError (.inArgument 1 f.name)
      | .error c => .error c := by
  have hargs : ∀ found, fitArguments r f.name 1 [found] [t] = (fits r found t).mapError (.inArgument 1 f.name) := by
    intro found
    rw [fitArguments]
    cases fits r found t <;> rfl
  rw [accepts, apply, typeOfName_eq_ok.2 hf, inferAll, inferAll]
  cases infer r env e with
  | error c => rfl
  | ok found =>
    change ((fitArguments r f.name 1 [found] [t] >>= fun _ => Except.ok u) >>= fun _ => Except.ok ()) =
      (fits r found t).mapError (.inArgument 1 f.name)
    rw [hargs]
    cases fits r found t <;> rfl

/-! ## Three ways -/

/-- A value is assigned behind the declaration of a variable as it is given to the type. -/
theorem accepts_behind_variable {h : Hint} {t : Ty} (ht : h.meaning r = .ok t) {e : Expr} {x : Ident}
    (hx : x.name ∉ e.mentions) {bare assignment : Statement} (hbare : bare.Does (.declare x h none))
    (hassignment : assignment.Does (.assign x e)) {index : Nat} :
    accepts r (bindingsAfter r env index bare.kind) assignment.kind = fitsValue r env e t := by
  have hd : Declares r bare.kind x.name t := (declares_of_does hbare).2 (.variable ht)
  rw [accepts_of_does hassignment, accepts_assignment (typeOf?_bindingsAfter.2 (.inl hd)), fitsValue, fitsValue,
    infer_bindingsAfter]
  rintro n hn u hu
  cases (declares_of_does hbare).1 hu
  exact hx hn

/-- A value is passed behind the definition of a function as it is given to the type, but for what is said of it. -/
theorem accepts_behind_function {h : Hint} {t : Ty} (ht : h.meaning r = .ok t) {e : Expr} {f p : Ident}
    (hf : f.name ∉ e.mentions) {function call : Statement} {q : Span}
    (hfunction : function.Does (.define f [⟨p, h⟩] (.const q .none))) (hcall : call.Does (.call f [e])) {index : Nat} :
    accepts r (bindingsAfter r env index function.kind) call.kind =
      match infer r env e with
      | .ok found => (fits r found t).mapError (.inArgument 1 f.name)
      | .error c => .error c := by
  have hd : Declares r function.kind f.name (.callable [t] .none) :=
    (declares_of_does hfunction).2 (.function (.cons ht .nil) rfl)
  rw [accepts_of_does hcall, accepts_call (typeOf?_bindingsAfter.2 (.inl hd)), infer_bindingsAfter]
  rintro n hn u hu
  cases (declares_of_does hfunction).1 hu
  exact hf hn

/-- **Three ways to give a value to a type agree.** A value is given to a type by declaring a variable with it, by
assigning it to a variable that is declared, and by calling a function with one parameter. Behind the same statements,
the last verdicts of the three have the same status, reason and code. The first two have the same message. That of the
call is the same one when the value has no type, and otherwise says which argument it is about. -/
theorem giving_agrees (r : Registry) (before : List Statement) {h : Hint} {t : Ty} (ht : h.meaning r = .ok t)
    {e : Expr} {x f p : Ident} (hx : x.name ∉ e.mentions) (hf : f.name ∉ e.mentions)
    {declaration bare assignment function call : Statement} {q : Span}
    (hdeclaration : declaration.Does (.declare x h (some e)))
    (hbare : bare.Does (.declare x h none)) (hassignment : assignment.Does (.assign x e))
    (hfunction : function.Does (.define f [⟨p, h⟩] (.const q .none))) (hcall : call.Does (.call f [e])) :
    ∃ a b c, (check r .empty (before ++ [declaration])).1.verdicts.getLast? = some a ∧
      (check r .empty (before ++ [bare, assignment])).1.verdicts.getLast? = some b ∧
      (check r .empty (before ++ [function, call])).1.verdicts.getLast? = some c ∧
      (b.status = a.status ∧ b.reason = a.reason ∧ b.code = a.code ∧ b.message = a.message) ∧
      (c.status = a.status ∧ c.reason = a.reason ∧ c.code = a.code) ∧
      ((∃ u, HasType r (InScope r before) e u) →
        c.message = a.message.map fun m => "argument 1 of '" ++ f.name ++ "': " ++ m) ∧
      ((¬ ∃ u, HasType r (InScope r before) e u) → c.message = a.message) := by
  have htyped : (∃ u, HasType r (InScope r before) e u) ↔ ∃ u, infer r (run r .empty 0 before).2 e = .ok u :=
    exists_congr fun u => (infer_iff_hasType fun n t => typeOf?_run).symm
  generalize hbefore : (run r .empty 0 before).2 = env at htyped
  refine ⟨_, _, _, getLast?_verdicts_check _ _, getLast?_verdicts_check_pair _ _ _, getLast?_verdicts_check_pair _ _ _, ?_⟩
  rw [hbefore, htyped]
  have ha : accepts r env declaration.kind = fitsValue r env e t := by
    rw [accepts_of_does hdeclaration, accepts_declaration ht]
  unfold verdict
  rw [ha, accepts_behind_variable ht hx hbare hassignment, accepts_behind_function ht hf hfunction hcall, fitsValue]
  cases infer r env e with
  | error c =>
    refine ⟨⟨rfl, rfl, rfl, rfl⟩, ⟨rfl, rfl, rfl⟩, ?_, fun _ => rfl⟩
    rintro ⟨_, ⟨⟩⟩
  | ok found =>
    simp only [show (Except.ok found >>= fun u => fits r u t) = fits r found t from rfl]
    cases fits r found t <;>
      exact ⟨⟨rfl, rfl, rfl, rfl⟩, ⟨rfl, rfl, rfl⟩, fun _ => rfl, fun hn => absurd ⟨found, rfl⟩ hn⟩

/-- Behind `y: str`, what is said of `y` in `x: int = y` is said of it as an argument in `h(y)` behind
`def h(p: int) -> None`. -/
theorem giving_agrees_sample :
    ∃ a c, (check .builtin .empty
        [⟨.declare ⟨"y", .point 1 1⟩ (.name (.point 1 4) "str") none, .point 1 1, none⟩,
          ⟨.declare ⟨"x", .point 2 1⟩ (.name (.point 2 4) "int") (some (.name (.point 2 10) "y")), .point 2 1,
            none⟩]).1.verdicts.getLast? = some a ∧
      (check .builtin .empty
        [⟨.declare ⟨"y", .point 1 1⟩ (.name (.point 1 4) "str") none, .point 1 1, none⟩,
          ⟨.define ⟨"h", .point 2 5⟩ [⟨⟨"p", .point 2 7⟩, .name (.point 2 10) "int"⟩] (.const (.point 2 18) .none),
            .point 2 1, none⟩,
          ⟨.call ⟨"h", .point 3 1⟩ [.name (.point 3 3) "y"], .point 3 1, none⟩]).1.verdicts.getLast? = some c ∧
      c.message = a.message.map fun m => "argument 1 of '" ++ "h" ++ "': " ++ m := by
  have hint : (Hint.name (.point 2 4) "int").meaning .builtin = .ok .int := by decide +kernel
  have hstr : (Hint.name (.point 1 4) "str").meaning .builtin = .ok .str := by decide +kernel
  have hfunction : Statement.Does
      ⟨.define ⟨"h", .point 2 5⟩ [⟨⟨"p", .point 2 7⟩, .name (.point 2 10) "int"⟩] (.const (.point 2 18) .none),
        .point 2 1, none⟩
      (.define ⟨"h", .point 2 5⟩ [⟨⟨"p", .point 2 7⟩, .name (.point 2 4) "int"⟩] (.const (.point 2 18) .none)) := rfl
  have hcall : Statement.Does ⟨.call ⟨"h", .point 3 1⟩ [.name (.point 3 3) "y"], .point 3 1, none⟩
      (.call ⟨"h", .point 2 5⟩ [.name (.point 2 10) "y"]) := rfl
  obtain ⟨a, -, c, ha, -, hc, -, -, htyped, -⟩ :=
    giving_agrees .builtin [⟨.declare ⟨"y", .point 1 1⟩ (.name (.point 1 4) "str") none, .point 1 1, none⟩] hint
      (x := ⟨"x", .point 2 1⟩) (by decide) (by decide) (Statement.does_mk _ (.point 2 1) none)
      (Statement.does_mk _ (.point 2 1) none) (Statement.does_mk _ (.point 3 1) none) hfunction hcall
  exact ⟨a, c, ha, hc, htyped ⟨.str, .name ⟨[], _, [], rfl, .variable hstr, by simp⟩⟩⟩

end Checker

end AnnotationChecker
