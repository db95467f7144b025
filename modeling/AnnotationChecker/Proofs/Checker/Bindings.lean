import AnnotationChecker.Proofs.Checker.Run
/-!
# The bindings of a run

A run adds the bindings of its statements behind those it starts from (`toList_run`), and what they are does not
depend on those (`boundBy`). So a name has the type of its last declaration in the run, and one from before only
where the run does not declare it (`typeOf?_run_eq_or`).
-/

namespace AnnotationChecker

/-- A statement at a position makes a binding: all its hints have a meaning, and the binding has the name and its
span, the type, and the position. -/
inductive Binds (r : Registry) (index : Nat) : StatementKind → Binding → Prop where
  | variable {x : Ident} {h : Hint} {init : Option Expr} {t : Ty} : h.meaning r = .ok t →
      Binds r index (.declare x h init) ⟨x.name, t, index, x.span⟩
  | function {f : Ident} {ps : List Param} {ret : Hint} {ts : List Ty} {t : Ty} :
      List.Forall₂ (fun p t => p.hint.meaning r = .ok t) ps ts → ret.meaning r = .ok t →
      Binds r index (.define f ps ret) ⟨f.name, .callable ts t, index, f.span⟩

namespace Checker

variable {r : Registry}

/-! ## One statement -/

/-- The binding that a statement at a position makes. -/
def bound? (r : Registry) (index : Nat) (k : StatementKind) : Option Binding :=
  match declared? r k with
  | some (x, .ok t) => some ⟨x.name, t, index, x.span⟩
  | _ => none

theorem bound?_eq_some_iff {index : Nat} {k : StatementKind} {b : Binding} :
    bound? r index k = some b ↔ Binds r index k b := by
  constructor
  · intro h
    unfold bound? at h
    split at h
    · next x t hd =>
      cases h
      cases k with
      | declare y hint init =>
        simp only [declared?, Option.some.injEq, Prod.mk.injEq] at hd
        obtain ⟨rfl, hd⟩ := hd
        exact .variable (typeOfHint_eq_ok.1 hd)
      | define f ps ret =>
        simp only [declared?, Option.some.injEq, Prod.mk.injEq] at hd
        obtain ⟨rfl, hd⟩ := hd
        obtain ⟨ts, u, hps, hu, rfl⟩ := typeOfFunction_eq_ok.1 hd
        exact .function hps hu
      | assign => cases hd
      | call => cases hd
    · cases h
  · rintro (hm | ⟨hps, hm⟩)
    · simp [bound?, declared?, typeOfHint_eq_ok.2 hm]
    · simp [bound?, declared?, typeOfFunction_eq_ok.2 ⟨_, _, hps, hm, rfl⟩]

theorem toList_bindingsAfter (env : Bindings) (index : Nat) (k : StatementKind) :
    (bindingsAfter r env index k).toList = env.toList ++ (bound? r index k).toList := by
  unfold bindingsAfter bound?
  rcases declared? r k with _ | ⟨x, c | t⟩ <;> simp

/-! ## A run -/

/-- The bindings that statements from a position on make. -/
def boundBy (r : Registry) : (index : Nat) → List Statement → List Binding
  | _, [] => []
  | index, s :: ss => (bound? r index s.kind).toList ++ boundBy r (index + 1) ss

theorem toList_run (env : Bindings) (index : Nat) (ss : List Statement) :
    (run r env index ss).2.toList = env.toList ++ boundBy r index ss := by
  induction ss generalizing env index with
  | nil => simp [run, boundBy]
  | cons s ss ih => rw [run, ih, toList_bindingsAfter, boundBy, List.append_assoc]

theorem mem_boundBy {index : Nat} {ss : List Statement} {b : Binding} :
    b ∈ boundBy r index ss ↔ ∃ i s, ss[i]? = some s ∧ Binds r (index + i) s.kind b := by
  induction ss generalizing index with
  | nil => simp [boundBy]
  | cons s ss ih =>
    rw [boundBy, List.mem_append, Option.mem_toList, bound?_eq_some_iff, ih]
    constructor
    · rintro (h | ⟨i, s', hs, h⟩)
      · exact ⟨0, s, rfl, h⟩
      · exact ⟨i + 1, s', hs, by rwa [← Nat.add_assoc, Nat.add_right_comm]⟩
    · rintro ⟨i, s', hs, h⟩
      cases i with
      | zero => cases hs; exact .inl h
      | succ i => exact .inr ⟨i, s', hs, by rwa [Nat.add_right_comm, Nat.add_assoc]⟩

theorem position_of_binds {index : Nat} {k : StatementKind} {b : Binding} (h : Binds r index k b) :
    b.position = index := by
  cases h <;> rfl

theorem pairwise_boundBy (index : Nat) (ss : List Statement) :
    (boundBy r index ss).Pairwise fun b c => b.position < c.position := by
  induction ss generalizing index with
  | nil => exact .nil
  | cons s ss ih =>
    rw [boundBy, List.pairwise_append]
    refine ⟨?_, ih _, ?_⟩
    · cases bound? r index s.kind <;> simp
    · intro b hb c hc
      obtain ⟨i, s', -, hc⟩ := mem_boundBy.1 hc
      rw [position_of_binds (bound?_eq_some_iff.1 (Option.mem_toList.1 hb)), position_of_binds hc]
      omega

/-- A run from no bindings leaves one for every statement all of whose hints have a meaning, in the order of the
statements. -/
theorem mem_toList_run {ss : List Statement} {b : Binding} :
    b ∈ (run r .empty 0 ss).2.toList ↔ ∃ s, ss[b.position]? = some s ∧ Binds r b.position s.kind b := by
  rw [toList_run, Bindings.toList_empty, List.nil_append, mem_boundBy]
  constructor
  · rintro ⟨i, s, hs, h⟩
    rw [Nat.zero_add] at h
    rw [position_of_binds h]
    exact ⟨s, hs, h⟩
  · rintro ⟨s, hs, h⟩
    exact ⟨b.position, s, hs, by rwa [Nat.zero_add]⟩

/-! ## Look-ups -/

theorem lookup_eq_find? (env : Bindings) (name : String) :
    env.lookup name = env.toList.reverse.find? fun b => b.name == name := by
  simp [Bindings.lookup, Bindings.toList]

/-- After a run a name has the type that the run gave it, or else the one from before. -/
theorem typeOf?_run_eq_or (env : Bindings) (index : Nat) (ss : List Statement) (name : String) :
    (run r env index ss).2.typeOf? name = ((run r .empty index ss).2.typeOf? name).or (env.typeOf? name) := by
  unfold Bindings.typeOf?
  simp only [lookup_eq_find?, toList_run, List.reverse_append, List.find?_append, Bindings.toList_empty]
  simp [Option.map_or]

end Checker

end AnnotationChecker
