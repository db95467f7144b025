import Mathlib.Data.List.Induction
import AnnotationChecker.Proofs.Checker.Success
/-!
# A run over statements

Every statement is judged under the bindings that the statements before it made (`run_getElem?`). The type of
a name that is in effect is the one that its last declaration without a fault gave it (`typeOf?_run`), and a
report lists the verdicts of a run in the order of the statements (`verdicts_check`).
-/

namespace AnnotationChecker

/-- A statement declares a name with a type: all its hints have a meaning. -/
inductive Declares (r : Registry) : StatementKind → String → Ty → Prop where
  | variable {x : Ident} {h : Hint} {init : Option Expr} {t : Ty} : h.meaning r = .ok t →
      Declares r (.declare x h init) x.name t
  | function {f : Ident} {ps : List Param} {ret : Hint} {ts : List Ty} {t : Ty} :
      List.Forall₂ (fun p t => p.hint.meaning r = .ok t) ps ts → ret.meaning r = .ok t →
      Declares r (.define f ps ret) f.name (.callable ts t)

/-- After some statements, the last one that declares the name gives it this type. -/
def InScope (r : Registry) (before : List Statement) (name : String) (t : Ty) : Prop :=
  ∃ front s back, before = front ++ s :: back ∧ Declares r s.kind name t ∧
    ∀ s' ∈ back, ∀ u, ¬ Declares r s'.kind name u

theorem inScope_nil {r : Registry} {name : String} {t : Ty} : ¬ InScope r [] name t := by
  rintro ⟨front, s, back, h, -⟩
  simp at h

/-- The last statement decides if it declares the name. -/
theorem inScope_concat {r : Registry} {before : List Statement} {s : Statement} {name : String} {t : Ty} :
    InScope r (before ++ [s]) name t ↔
      Declares r s.kind name t ∨ ((∀ u, ¬ Declares r s.kind name u) ∧ InScope r before name t) := by
  constructor
  · rintro ⟨front, s', back, he, hd, hb⟩
    -- the declaration is the last statement, or the last statement comes behind it
    rcases List.eq_nil_or_concat back with rfl | ⟨back, s'', rfl⟩
    · obtain ⟨rfl, hs⟩ := List.append_inj' he rfl
      cases hs
      exact .inl hd
    · rw [List.concat_eq_append] at he hb
      rw [← List.cons_append, ← List.append_assoc] at he
      obtain ⟨rfl, hs⟩ := List.append_inj' he rfl
      cases hs
      exact .inr ⟨hb s (by simp), front, s', back, rfl, hd, fun x hx => hb x (by simp [hx])⟩
  · rintro (hd | ⟨hn, front, s', back, rfl, hd, hb⟩)
    · exact ⟨before, s, [], rfl, hd, by simp⟩
    · refine ⟨front, s', back ++ [s], by simp, hd, ?_⟩
      intro x hx
      rcases List.mem_append.1 hx with hx | hx
      · exact hb x hx
      · simp only [List.mem_singleton] at hx
        exact hx ▸ hn

namespace Checker

variable {r : Registry}

/-! ## Bindings -/

theorem declares_iff {k : StatementKind} {name : String} {t : Ty} :
    Declares r k name t ↔ ∃ x, declared? r k = some (x, .ok t) ∧ x.name = name := by
  constructor
  · rintro (hm | ⟨hps, hm⟩)
    · exact ⟨_, by simp [declared?, typeOfHint_eq_ok.2 hm], rfl⟩
    · exact ⟨_, by simp [declared?, typeOfFunction_eq_ok.2 ⟨_, _, hps, hm, rfl⟩], rfl⟩
  · rintro ⟨x, h, rfl⟩
    cases k with
    | declare y hint init =>
      simp only [declared?, Option.some.injEq, Prod.mk.injEq] at h
      obtain ⟨rfl, h⟩ := h
      exact .variable (typeOfHint_eq_ok.1 h)
    | define f ps ret =>
      simp only [declared?, Option.some.injEq, Prod.mk.injEq] at h
      obtain ⟨rfl, h⟩ := h
      obtain ⟨ts, u, hps, hu, rfl⟩ := typeOfFunction_eq_ok.1 h
      exact .function hps hu
    | assign => cases h
    | call => cases h

theorem typeOf?_bind {env : Bindings} {b : Binding} {name : String} :
    (env.bind b).typeOf? name = if b.name = name then some b.ty else env.typeOf? name := by
  unfold Bindings.typeOf?
  rw [Bindings.lookup_bind]
  split <;> rfl

/-- A statement changes the type of the name that it declares, and no other. -/
theorem typeOf?_bindingsAfter {env : Bindings} {index : Nat} {k : StatementKind} {name : String} {t : Ty} :
    (bindingsAfter r env index k).typeOf? name = some t ↔
      Declares r k name t ∨ ((∀ u, ¬ Declares r k name u) ∧ env.typeOf? name = some t) := by
  simp only [declares_iff]
  unfold bindingsAfter
  split
  · next x u h =>
    rw [typeOf?_bind, h]
    by_cases hx : x.name = name <;> simp [hx]
  · next h =>
    have hn : ∀ u, ¬ ∃ x, declared? r k = some (x, .ok u) ∧ x.name = name := by
      rintro u ⟨x, hd, -⟩
      exact h x u hd
    simp [hn]

/-! ## Runs -/

theorem run_append (env : Bindings) (index : Nat) (ss ss' : List Statement) :
    run r env index (ss ++ ss') =
      ((run r env index ss).1 ++ (run r (run r env index ss).2 (index + ss.length) ss').1,
        (run r (run r env index ss).2 (index + ss.length) ss').2) := by
  induction ss generalizing env index with
  | nil => simp [run]
  | cons s ss ih =>
    simp only [List.cons_append, run, List.length_cons]
    rw [ih, show index + 1 + ss.length = index + (ss.length + 1) by omega]

theorem length_run (env : Bindings) (index : Nat) (ss : List Statement) :
    (run r env index ss).1.length = ss.length := by
  induction ss generalizing env index with
  | nil => rfl
  | cons s ss ih => simp [run, ih]

/-- A statement is judged under the bindings of those before it. -/
theorem run_getElem? (env : Bindings) (index : Nat) (ss : List Statement) (i : Nat) :
    (run r env index ss).1[i]? =
      ss[i]?.map fun s => verdict r (run r env index (ss.take i)).2 (index + i) s := by
  induction ss generalizing env index i with
  | nil => simp [run]
  | cons s ss ih =>
    cases i with
    | zero => simp [run]
    | succ i =>
      simp only [run, List.getElem?_cons_succ, List.take_succ_cons]
      rw [ih, show index + 1 + i = index + (i + 1) by omega]

/-- The types that are in effect after some statements are those of the last declarations. -/
theorem typeOf?_run {ss : List Statement} {name : String} {t : Ty} :
    (run r .empty 0 ss).2.typeOf? name = some t ↔ InScope r ss name t := by
  induction ss using List.reverseRecOn generalizing t with
  | nil => simp [run, inScope_nil, Bindings.typeOf?, Bindings.lookup, Bindings.empty]
  | append_singleton ss s ih =>
    rw [run_append, inScope_concat, ← ih]
    exact typeOf?_bindingsAfter

/-! ## Reports -/

theorem index_verdict (env : Bindings) (index : Nat) (s : Statement) : (verdict r env index s).index = index := by
  unfold verdict
  split <;> rfl

theorem span_verdict (env : Bindings) (index : Nat) (s : Statement) : (verdict r env index s).span = s.span := by
  unfold verdict
  split <;> rfl

/-- The verdicts of a run stand in order. -/
theorem pairwise_run (env : Bindings) (index : Nat) (ss : List Statement) :
    (run r env index ss).1.Pairwise fun v w => decide (v.index ≤ w.index) = true := by
  rw [List.pairwise_iff_getElem]
  intro i j hi hj hij
  have h : ∀ k (hk : k < (run r env index ss).1.length), (run r env index ss).1[k].index = index + k := by
    intro k hk
    have hg := run_getElem? (r := r) env index ss k
    rw [List.getElem?_eq_getElem hk, List.getElem?_eq_getElem (by simpa [length_run] using hk)] at hg
    simp only [Option.map_some, Option.some.injEq] at hg
    rw [hg, index_verdict]
  simp only [h, decide_eq_true_eq]
  omega

theorem verdicts_check (env : Bindings) (ss : List Statement) :
    (check r env ss).1.verdicts = (run r env 0 ss).1 := by
  unfold check Report.ofVerdicts
  exact List.mergeSort_of_pairwise (pairwise_run env 0 ss)

end Checker

end AnnotationChecker
