import AnnotationChecker.Proofs.Checker.Run
import AnnotationChecker.Proofs.Expr.Induction
/-!
# The checker decides its typing rules

`HasType` and `Accepted` are the typing rules for expressions and statements, under the types of the names in
scope. The checker finds the type of every expression that has one (`infer_iff_hasType`), and it accepts a
statement exactly when the rules do, under the last declarations before the statement
(`check_iff_accepted`).
-/

namespace AnnotationChecker

/-! ## Rules -/

/-- Types of names. -/
abbrev Scope := String → Ty → Prop

/-- The type of a list display with elements of a type: the constructor of the registry for list displays, or an
invariant one of that name when there is none. -/
inductive DisplayType (r : Registry) (element : Ty) : Ty → Prop where
  | known {ctor : String} {spec : ContainerSpec} : r.resolve? r.listDisplay = some (ctor, spec) →
      DisplayType r element (.container ctor element spec.variance)
  | unknown : r.resolve? r.listDisplay = none → DisplayType r element (.container r.listDisplay element .invariant)

/-- Types one by one below others. -/
def AllBelow (r : Registry) : List Ty → List Ty → Prop := List.Forall₂ fun t u => Ty.isSubtype r t u = true

mutual

/-- An expression has a type. -/
inductive HasType (r : Registry) (G : Scope) : Expr → Ty → Prop where
  | int {s : Span} {v : Int} : HasType r G (.int s v) (.literal (.int v))
  | float {s : Span} {v : Binary64} : HasType r G (.float s v) .float
  | str {s : Span} {v : String} : HasType r G (.str s v) (.literal (.str v))
  | bytes {s : Span} {v : String} : HasType r G (.bytes s v) .bytes
  | formatted {s : Span} {v : String} : HasType r G (.formatted s v) .str
  | bool {s : Span} {v : Bool} : HasType r G (.bool s v) (.literal (.bool v))
  | none {s : Span} : HasType r G (.none s) .none
  | name {s : Span} {n : String} {t : Ty} : G n t → HasType r G (.name s n) t
  | list {s : Span} {items : List Expr} {ts : List Ty} {t : Ty} : HaveTypes r G items ts →
      DisplayType r (.join (ts.map Ty.widen)) t → HasType r G (.list s items) t
  | call {s : Span} {f : Ident} {args : List Expr} {ts params : List Ty} {ret : Ty} :
      G f.name (.callable params ret) → HaveTypes r G args ts → AllBelow r ts params →
      HasType r G (.call s f args) ret

/-- Expressions have types, one by one. -/
inductive HaveTypes (r : Registry) (G : Scope) : List Expr → List Ty → Prop where
  | nil : HaveTypes r G [] []
  | cons {e : Expr} {t : Ty} {es : List Expr} {ts : List Ty} : HasType r G e t → HaveTypes r G es ts →
      HaveTypes r G (e :: es) (t :: ts)

end

/-- A statement is in order. -/
inductive Accepted (r : Registry) (G : Scope) : StatementKind → Prop where
  | declare {x : Ident} {h : Hint} {t : Ty} : h.meaning r = .ok t → Accepted r G (.declare x h none)
  | declareWith {x : Ident} {h : Hint} {e : Expr} {t u : Ty} : h.meaning r = .ok t → HasType r G e u →
      Ty.isSubtype r u t = true → Accepted r G (.declare x h (some e))
  | assign {x : Ident} {e : Expr} {t u : Ty} : G x.name t → HasType r G e u → Ty.isSubtype r u t = true →
      Accepted r G (.assign x e)
  | call {s : Span} {f : Ident} {args : List Expr} {t : Ty} : HasType r G (.call s f args) t →
      Accepted r G (.call f args)
  | define {f : Ident} {ps : List Param} {ret : Hint} {ts : List Ty} {t : Ty} :
      List.Forall₂ (fun p t => p.hint.meaning r = .ok t) ps ts → ret.meaning r = .ok t →
      Accepted r G (.define f ps ret)

/-! ## Expressions -/

theorem haveTypes_iff {r : Registry} {G : Scope} {es : List Expr} {ts : List Ty} :
    HaveTypes r G es ts ↔ List.Forall₂ (HasType r G) es ts := by
  induction es generalizing ts with
  | nil =>
    constructor
    · rintro ⟨⟩; exact .nil
    · rintro ⟨⟩; exact .nil
  | cons e es ih =>
    constructor
    · rintro (_ | ⟨ht, hts⟩)
      exact .cons ht (ih.1 hts)
    · rintro (_ | ⟨ht, hts⟩)
      exact .cons ht (ih.2 hts)

namespace Checker

variable {r : Registry} {env : Bindings} {G : Scope}

theorem displayType_iff {t u : Ty} : DisplayType r t u ↔ u = listOf r t := by
  unfold listOf
  cases hd : r.resolve? r.listDisplay with
  | none =>
    constructor
    · rintro (h | h)
      · rw [hd] at h; cases h
      · rfl
    · rintro rfl
      exact .unknown hd
  | some e =>
    constructor
    · rintro (h | h)
      · rw [hd] at h; cases h; rfl
      · rw [hd] at h; cases h
    · rintro rfl
      exact .known hd

theorem inferAll_iff_haveTypes {es : List Expr} {ts : List Ty}
    (ih : ∀ e ∈ es, ∀ t, infer r env e = .ok t ↔ HasType r G e t) :
    inferAll r env es = .ok ts ↔ HaveTypes r G es ts := by
  rw [inferAll_eq_ok, haveTypes_iff]
  induction es generalizing ts with
  | nil => cases ts <;> simp
  | cons e es ihs =>
    cases ts with
    | nil => simp
    | cons t ts =>
      rw [List.forall₂_cons, List.forall₂_cons, ih e (by simp), ihs (fun e he => ih e (by simp [he]))]

/-- The checker infers the types that the rules give, when its bindings are the types in scope. -/
theorem infer_iff_hasType (hG : ∀ n t, env.typeOf? n = some t ↔ G n t) {e : Expr} {t : Ty} :
    infer r env e = .ok t ↔ HasType r G e t := by
  induction e using Expr.inductionOn generalizing t with
  | name s n =>
    rw [infer, typeOfName_eq_ok, hG]
    exact ⟨.name, fun h => by cases h; assumption⟩
  | list s items ih =>
    rw [infer_list_eq_ok]
    constructor
    · rintro ⟨ts, hts, rfl⟩
      exact .list ((inferAll_iff_haveTypes fun e he t => ih e he).1 hts) (displayType_iff.2 rfl)
    · intro h
      cases h with
      | list hts hd =>
        exact ⟨_, (inferAll_iff_haveTypes fun e he t => ih e he).2 hts, displayType_iff.1 hd⟩
  | call s f args ih =>
    rw [infer, apply_eq_ok]
    constructor
    · rintro ⟨params, ts, hf, hts, hb⟩
      exact .call ((hG _ _).1 hf) ((inferAll_iff_haveTypes fun e he t => ih e he).1 hts) hb
    · intro h
      cases h with
      | call hf hts hb =>
        exact ⟨_, _, (hG _ _).2 hf, (inferAll_iff_haveTypes fun e he t => ih e he).2 hts, hb⟩
  | _ =>
    -- a literal has one type, by the checker and by the rules
    constructor
    · intro h
      cases h
      constructor
    · intro h
      cases h
      rfl

/-! ## Statements -/

theorem accepts_iff_accepted (hG : ∀ n t, env.typeOf? n = some t ↔ G n t) {k : StatementKind} :
    accepts r env k = .ok () ↔ Accepted r G k := by
  cases k with
  | declare x h init =>
    rw [accepts_declare_eq_ok]
    constructor
    · rintro ⟨t, ht, hi⟩
      cases init with
      | none => exact .declare ht
      | some e =>
        obtain ⟨u, hu, hs⟩ := hi e rfl
        exact .declareWith ht ((infer_iff_hasType hG).1 hu) hs
    · intro h
      cases h with
      | declare ht => exact ⟨_, ht, by simp⟩
      | declareWith ht hu hs =>
        refine ⟨_, ht, fun e he => ?_⟩
        cases he
        exact ⟨_, (infer_iff_hasType hG).2 hu, hs⟩
  | assign x e =>
    rw [accepts_assign_eq_ok]
    constructor
    · rintro ⟨t, u, ht, hu, hs⟩
      exact .assign ((hG _ _).1 ht) ((infer_iff_hasType hG).1 hu) hs
    · intro h
      cases h with
      | assign ht hu hs => exact ⟨_, _, (hG _ _).2 ht, (infer_iff_hasType hG).2 hu, hs⟩
  | call f args =>
    rw [accepts_call_eq_ok]
    constructor
    · rintro ⟨t, ht⟩
      have hi : infer r env (.call f.span f args) = .ok t := by rw [infer]; exact ht
      exact .call ((infer_iff_hasType hG).1 hi)
    · intro h
      cases h with
      | call ht => exact ⟨_, (infer_iff_hasType hG).2 ht⟩
  | define f ps ret =>
    rw [accepts_define_eq_ok]
    simp only [typeOfFunction_eq_ok]
    constructor
    · rintro ⟨_, ts, u, hps, hu, -⟩
      exact .define hps hu
    · intro h
      cases h with
      | define hps hu => exact ⟨_, _, _, hps, hu, rfl⟩

/-- The report on a module has one verdict for each statement, at its index and with its span, and it accepts
those statements that the rules accept under the last declarations before them. -/
theorem check_iff_accepted (r : Registry) (ss : List Statement) :
    (check r .empty ss).1.verdicts.length = ss.length ∧
      ∀ i s, ss[i]? = some s → ∃ v, (check r .empty ss).1.verdicts[i]? = some v ∧ v.index = i ∧ v.span = s.span ∧
        (v.status = .ok ↔ Accepted r (InScope r (ss.take i)) s.kind) := by
  rw [verdicts_check]
  refine ⟨length_run _ _ _, fun i s hs => ?_⟩
  refine ⟨verdict r (run r .empty 0 (ss.take i)).2 i s, ?_, index_verdict _ _ _, span_verdict _ _ _, ?_⟩
  · rw [run_getElem?, hs, Nat.zero_add]
    rfl
  · rw [status_verdict]
    exact accepts_iff_accepted (fun n t => typeOf?_run)

end Checker

end AnnotationChecker
