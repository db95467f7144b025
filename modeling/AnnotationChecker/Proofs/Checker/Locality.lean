import Mathlib.Logic.Relation
import AnnotationChecker.Proofs.Checker.Bindings
import AnnotationChecker.Proofs.Expr.Induction
import AnnotationChecker.Proofs.Hint.Meaning
import AnnotationChecker.Proofs.Statement.Plain
/-!
# A verdict depends on what its statement mentions

Of the bindings before it, a statement sees only the types of the names that it mentions, and of itself only its
plain form. So two statements with the same plain form are judged alike wherever the last declarations before them
give these names the same types, and what else stands before them can be deleted or edited (`outcome_local`).

`SameUnless` compares two results of the checker in a way that serves two purposes: with no rejection let
through it is equality, and with those for unresolved names let through it allows that more names are bound.
-/

namespace AnnotationChecker

namespace Checker

/-! ## Comparing results -/

/-- Two results are the same, unless the first one is a rejection that is let through. -/
def SameUnless {α : Type} (P : Rejection → Prop) (x y : Except Rejection α) : Prop :=
  x = y ∨ ∃ c, x = .error c ∧ P c

variable {r : Registry} {env env' : Bindings} {P : Rejection → Prop}

namespace SameUnless

theorem refl {α : Type} (x : Except Rejection α) : SameUnless P x x := .inl rfl

theorem bind {α β : Type} {x y : Except Rejection α} {f g : α → Except Rejection β} (h : SameUnless P x y)
    (hf : ∀ a, SameUnless P (f a) (g a)) : SameUnless P (x >>= f) (y >>= g) := by
  rcases h with rfl | ⟨c, rfl, hc⟩
  · cases x with
    | ok a => exact hf a
    | error c => exact .refl _
  · exact .inr ⟨c, rfl, hc⟩

theorem inferAll {es : List Expr} (h : ∀ e ∈ es, SameUnless P (infer r env e) (infer r env' e)) :
    SameUnless P (Checker.inferAll r env es) (Checker.inferAll r env' es) := by
  induction es with
  | nil => exact .refl _
  | cons e es ih =>
    rw [Checker.inferAll, Checker.inferAll]
    exact .bind (h e (by simp)) fun _ => .bind (ih fun e he => h e (by simp [he])) fun _ => .refl _

theorem apply {f : String} {count : Nat} {args args' : Except Rejection (List Ty)}
    (hf : SameUnless P (typeOfName env f) (typeOfName env' f)) (hargs : SameUnless P args args') :
    SameUnless P (Checker.apply r env f count args) (Checker.apply r env' f count args') := by
  refine .bind hf fun t => ?_
  cases t with
  | callable params ret =>
    simp only
    split
    · exact .bind hargs fun _ => .refl _
    · exact .refl _
  | _ => exact .refl _

end SameUnless

/-- Two tables of bindings give names the same types, unless the first one rejects a name in a way that is let
through. -/
def AgreeOn (P : Rejection → Prop) (env env' : Bindings) (names : List String) : Prop :=
  ∀ n ∈ names, SameUnless P (typeOfName env n) (typeOfName env' n)

theorem AgreeOn.infer {e : Expr} (h : AgreeOn P env env' e.mentions) :
    SameUnless P (infer r env e) (infer r env' e) := by
  induction e using Expr.inductionOn with
  | name s n => exact h n (by simp [Expr.mentions])
  | list s items ih =>
    rw [Checker.infer, Checker.infer]
    refine .bind (.inferAll fun e he => ih e he fun n hn => h n ?_) fun _ => .refl _
    exact Expr.mem_mentionsList.2 ⟨e, he, hn⟩
  | call s f args ih =>
    rw [Checker.infer, Checker.infer]
    refine .apply (h f.name (by simp [Expr.mentions])) (.inferAll fun e he => ih e he fun n hn => h n ?_)
    exact List.mem_cons_of_mem _ (Expr.mem_mentionsList.2 ⟨e, he, hn⟩)
  | _ => exact .refl _

theorem AgreeOn.fitsValue {e : Expr} {declared : Ty} (h : AgreeOn P env env' e.mentions) :
    SameUnless P (fitsValue r env e declared) (fitsValue r env' e declared) :=
  .bind h.infer fun _ => .refl _

/-- A statement is judged alike under bindings that agree on the names that it mentions. -/
theorem AgreeOn.accepts {k : StatementKind} (h : AgreeOn P env env' k.mentions) :
    SameUnless P (accepts r env k) (accepts r env' k) := by
  cases k with
  | declare x hint init =>
    cases init with
    | none => exact .refl _
    | some e => exact .bind (.refl _) fun t => AgreeOn.fitsValue h
  | assign x e =>
    refine .bind (h x.name (by simp [StatementKind.mentions])) fun t => AgreeOn.fitsValue fun n hn => h n ?_
    exact List.mem_cons_of_mem _ hn
  | call f args =>
    have hargs : SameUnless P (Checker.inferAll r env args) (Checker.inferAll r env' args) := by
      refine .inferAll fun e he => AgreeOn.infer fun n hn => h n ?_
      exact List.mem_cons_of_mem _ (Expr.mem_mentionsList.2 ⟨e, he, hn⟩)
    exact .bind (.apply (h f.name (by simp [StatementKind.mentions])) hargs) fun _ => .refl _
  | define f ps t => exact .refl _

/-! ## Plain forms -/

theorem inferAll_plain {es : List Expr} (h : ∀ e ∈ es, infer r env e.plain = infer r env e) :
    inferAll r env (es.map Expr.plain) = inferAll r env es := by
  induction es with
  | nil => rfl
  | cons e es ih =>
    rw [List.map_cons, inferAll, inferAll, h e (by simp), ih fun e he => h e (by simp [he])]

theorem infer_plain (e : Expr) : infer r env e.plain = infer r env e := by
  induction e using Expr.inductionOn with
  | list s items ih => rw [Expr.plain, Expr.plainList_eq_map, infer, infer, inferAll_plain ih]
  | call s f args ih =>
    rw [Expr.plain, Expr.plainList_eq_map, infer, infer, inferAll_plain ih, List.length_map]
  | _ => rfl

theorem typeOfHint_plain (h : Hint) : typeOfHint r h.plain = typeOfHint r h := by
  unfold typeOfHint
  rw [Hint.meaning_plain, Hint.text_plain]

theorem typesOfParams_plain (ps : List Param) : typesOfParams r (ps.map Param.plain) = typesOfParams r ps := by
  induction ps with
  | nil => rfl
  | cons p ps ih =>
    rw [List.map_cons, typesOfParams, typesOfParams, ih, Param.plain, typeOfHint_plain]

/-- A statement is judged as its plain form is. -/
theorem accepts_plain (k : StatementKind) : accepts r env k.plain = accepts r env k := by
  cases k with
  | declare x h init =>
    cases init <;> simp only [StatementKind.plain, accepts, typeOfHint_plain, fitsValue, infer_plain, Option.map_some,
      Option.map_none]
  | assign x e => simp only [StatementKind.plain, accepts, fitsValue, infer_plain]
  | call f args =>
    simp only [StatementKind.plain, accepts, inferAll_plain fun e _ => infer_plain e, List.length_map]
  | define f ps t =>
    simp only [StatementKind.plain, accepts, typeOfFunction, typesOfParams_plain, typeOfHint_plain]

end Checker

/-! ## Edits of what stands before -/

/-- A statement that gives none of these names a type: it is no declaration, or has a hint without a meaning, or
declares another name. -/
inductive Passive (r : Registry) (names : List String) : StatementKind → Prop where
  | assign (x : Ident) (e : Expr) : Passive r names (.assign x e)
  | call (f : Ident) (args : List Expr) : Passive r names (.call f args)
  | failed {k : StatementKind} : (∀ n t, ¬ Declares r k n t) → Passive r names k
  | declare {x : Ident} (h : Hint) (init : Option Expr) : x.name ∉ names → Passive r names (.declare x h init)
  | define {f : Ident} (ps : List Param) (t : Hint) : f.name ∉ names → Passive r names (.define f ps t)

/-- An edit that leaves the types of these names alone: deleting a passive statement, replacing it with another
one, or changing the value that a variable is declared with. -/
inductive Edit (r : Registry) (names : List String) : List Statement → List Statement → Prop where
  | delete (front back : List Statement) {s : Statement} : Passive r names s.kind →
      Edit r names (front ++ s :: back) (front ++ back)
  | replace (front back : List Statement) {s s' : Statement} : Passive r names s.kind → Passive r names s'.kind →
      Edit r names (front ++ s :: back) (front ++ s' :: back)
  | revalue (front back : List Statement) {s s' : Statement} {x : Ident} {h : Hint} {init init' : Option Expr} :
      s.kind = .declare x h init → s'.kind = .declare x h init' →
      Edit r names (front ++ s :: back) (front ++ s' :: back)

variable {r : Registry} {names : List String} {name : String} {t : Ty}

theorem Passive.not_declares {k : StatementKind} (hk : Passive r names k) (hn : name ∈ names) :
    ¬ Declares r k name t := by
  intro h
  cases hk with
  | assign => cases h
  | call => cases h
  | failed hf => exact hf name t h
  | declare _ _ hx => cases h; exact hx hn
  | define _ _ hf => cases h; exact hf hn

theorem declares_init {x : Ident} {h : Hint} {init init' : Option Expr}
    (hd : Declares r (.declare x h init) name t) : Declares r (.declare x h init') name t := by
  cases hd
  next hm => exact .variable hm

/-- Statements behind two lists that give a name the same type still do so. -/
theorem inScope_append_congr {front front' back : List Statement}
    (h : ∀ t, InScope r front name t ↔ InScope r front' name t) :
    InScope r (front ++ back) name t ↔ InScope r (front' ++ back) name t := by
  induction back using List.reverseRecOn generalizing t with
  | nil => simpa using h t
  | append_singleton back s ih =>
    rw [← List.append_assoc, ← List.append_assoc, inScope_concat, inScope_concat, ih]

/-- The types in scope before and after an edit. -/
theorem Edit.inScope {before before' : List Statement} (h : Edit r names before before') (hn : name ∈ names) :
    InScope r before name t ↔ InScope r before' name t := by
  -- what stands behind the edited statement does not matter, so it is the last one
  cases h with
  | delete front back hs =>
    rw [← List.singleton_append, ← List.append_assoc]
    refine inScope_append_congr fun t => ?_
    simp [inScope_concat, hs.not_declares hn]
  | replace front back hs hs' =>
    rw [← List.singleton_append, ← List.append_assoc, ← List.singleton_append (l := back), ← List.append_assoc]
    refine inScope_append_congr fun t => ?_
    simp [inScope_concat, hs.not_declares hn, hs'.not_declares hn]
  | @revalue front back s s' x h init init' hs hs' =>
    rw [← List.singleton_append, ← List.append_assoc, ← List.singleton_append (l := back), ← List.append_assoc]
    refine inScope_append_congr fun t => ?_
    have hd : ∀ u, Declares r s.kind name u ↔ Declares r s'.kind name u := by
      intro u
      rw [hs, hs']
      exact ⟨declares_init, declares_init⟩
    simp only [inScope_concat, hd]

/-- The types in scope after any number of edits, made or taken back. -/
theorem inScope_of_edits {before before' : List Statement} (h : Relation.EqvGen (Edit r names) before before')
    (hn : name ∈ names) : InScope r before name t ↔ InScope r before' name t := by
  induction h with
  | rel _ _ h => exact h.inScope hn
  | refl _ => exact Iff.rfl
  | symm _ _ _ ih => exact ih.symm
  | trans _ _ _ _ _ ih ih' => exact ih.trans ih'

/-! ## Outcomes -/

/-- A verdict without its place. -/
def Verdict.outcome (v : Verdict) : Status × Option Reason × Option ErrorCode × Option String :=
  (v.status, v.reason, v.code, v.message)

namespace Checker

/-- The outcome for a statement of a module that is checked by itself. -/
def outcomeAt (r : Registry) (ss : List Statement) (i : Nat) :
    Option (Status × Option Reason × Option ErrorCode × Option String) :=
  (check r .empty ss).1.verdicts[i]?.map Verdict.outcome

theorem outcome_verdict {env env' : Bindings} {i j : Nat} {s s' : Statement}
    (h : accepts r env s.kind = accepts r env' s'.kind) :
    (verdict r env i s).outcome = (verdict r env' j s').outcome := by
  unfold verdict
  rw [h]
  cases accepts r env' s'.kind <;> rfl

theorem outcomeAt_eq {ss : List Statement} {i : Nat} {s : Statement} (hs : ss[i]? = some s) :
    outcomeAt r ss i = some (verdict r (run r .empty 0 (ss.take i)).2 i s).outcome := by
  rw [outcomeAt, verdicts_check, run_getElem?, hs, Nat.zero_add]
  rfl

/-- Two statements with the same plain form have the same outcome when the names that they mention have the same
types. -/
theorem outcomeAt_congr {ss ss' : List Statement} {i j : Nat} {s s' : Statement} (hs : ss[i]? = some s)
    (hs' : ss'[j]? = some s') (hp : s.kind.plain = s'.kind.plain)
    (hn : ∀ n ∈ s.kind.mentions, ∀ t, InScope r (ss.take i) n t ↔ InScope r (ss'.take j) n t) :
    ∃ o, outcomeAt r ss i = some o ∧ outcomeAt r ss' j = some o := by
  have hagree : AgreeOn (fun _ => False) (run r .empty 0 (ss.take i)).2 (run r .empty 0 (ss'.take j)).2
      s.kind.mentions := by
    intro n hm
    have htype : (run r .empty 0 (ss.take i)).2.typeOf? n = (run r .empty 0 (ss'.take j)).2.typeOf? n := by
      ext t
      rw [typeOf?_run, typeOf?_run]
      exact hn n hm t
    unfold typeOfName
    rw [htype]
    exact .refl _
  have haccepts := hagree.accepts (r := r)
  simp only [SameUnless, and_false, exists_false, or_false] at haccepts
  have hplain : ∀ env, accepts r env s.kind = accepts r env s'.kind := by
    intro env
    rw [← accepts_plain s.kind, hp, accepts_plain]
  exact ⟨_, outcomeAt_eq hs, by rw [outcomeAt_eq hs', outcome_verdict (haccepts.trans (hplain _)).symm]⟩

/-- What is judged of a statement depends on its plain form and on the types that the last declarations before it
give to the names it mentions, and on nothing else of the two modules. So it stays the same through edits of
what stands before it that leave these types alone, and whatever follows it. The bindings after a module are those
of the statements all of whose hints have a meaning, in their order, however they were judged. -/
theorem outcome_local (r : Registry) :
    (∀ ss ss' i j s s', ss[i]? = some s → ss'[j]? = some s' → s.kind.plain = s'.kind.plain →
      (∀ n ∈ s.kind.mentions, ∀ t, InScope r (ss.take i) n t ↔ InScope r (ss'.take j) n t) →
      ∃ o, outcomeAt r ss i = some o ∧ outcomeAt r ss' j = some o) ∧
    (∀ before before' s after after', Relation.EqvGen (Edit r s.kind.mentions) before before' →
      ∃ o, outcomeAt r (before ++ s :: after) before.length = some o ∧
        outcomeAt r (before' ++ s :: after') before'.length = some o) ∧
    ∀ ss, (check r .empty ss).2.toList.Pairwise (fun b c => b.position < c.position) ∧
      ∀ b, b ∈ (check r .empty ss).2.toList ↔ ∃ s, ss[b.position]? = some s ∧ Binds r b.position s.kind b := by
  refine ⟨fun ss ss' i j s s' => outcomeAt_congr, ?_, fun ss => ⟨?_, fun b => mem_toList_run⟩⟩
  · intro before before' s after after' h
    have hs : (before ++ s :: after)[before.length]? = some s := by simp
    have hs' : (before' ++ s :: after')[before'.length]? = some s := by simp
    refine outcomeAt_congr hs hs' rfl fun n hn t => ?_
    rw [List.take_left, List.take_left]
    exact inScope_of_edits h hn
  · show ((run r .empty 0 ss).2.toList).Pairwise _
    rw [toList_run]
    exact pairwise_boundBy 0 ss

/-- A value that does not fit, a rejected assignment and a declaration of another name stand before `x = 5` in one
module, and not in the other. -/
theorem outcome_local_sample :
    ∃ o, outcomeAt .builtin
        [⟨.declare ⟨"x", .point 1 1⟩ (.name (.point 1 4) "int") (some (.str (.point 1 10) "a")), .point 1 1, none⟩,
          ⟨.assign ⟨"y", .point 2 1⟩ (.name (.point 2 5) "z"), .point 2 1, none⟩,
          ⟨.declare ⟨"y", .point 3 1⟩ (.name (.point 3 4) "str") none, .point 3 1, none⟩,
          ⟨.assign ⟨"x", .point 4 1⟩ (.int (.point 4 5) 5), .point 4 1, none⟩] 3 = some o ∧
      outcomeAt .builtin
        [⟨.declare ⟨"x", .point 1 1⟩ (.name (.point 1 4) "int") none, .point 1 1, none⟩,
          ⟨.assign ⟨"x", .point 4 1⟩ (.int (.point 4 5) 5), .point 4 1, none⟩] 1 = some o := by
  refine (outcome_local .builtin).2.1 [_, _, _] [_] _ [] [] ?_
  refine .trans _ [⟨.declare ⟨"x", .point 1 1⟩ (.name (.point 1 4) "int") none, .point 1 1, none⟩, _, _] _
    (.rel _ _ (.revalue [] [_, _] rfl rfl)) ?_
  refine .trans _ [_, _] _ (.rel _ _ (.delete [_] [_] (.assign _ _))) ?_
  exact .rel _ _ (.delete [_] [] (.declare _ _ (by decide)))

end Checker

end AnnotationChecker
