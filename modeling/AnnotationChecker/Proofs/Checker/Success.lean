import Mathlib.Data.List.Forall2
import AnnotationChecker.Checker
/-!
# When the checker succeeds

One lemma for each function of the checker says exactly when it gives a result. Nothing about failures is
needed for that: a failure anywhere is the failure of the whole.
-/

namespace AnnotationChecker.Checker

variable {r : Registry} {env : Bindings}

theorem bind_eq_ok {ε α β : Type} {x : Except ε α} {f : α → Except ε β} {b : β} :
    (x >>= f) = .ok b ↔ ∃ a, x = .ok a ∧ f a = .ok b := by
  cases x <;> simp [bind, Except.bind]

/-! ## Values and types -/

theorem fits_eq_ok {found declared : Ty} : fits r found declared = .ok () ↔ Ty.isSubtype r found declared = true := by
  unfold fits
  split <;> simp_all

theorem typeOfName_eq_ok {name : String} {t : Ty} : typeOfName env name = .ok t ↔ env.typeOf? name = some t := by
  unfold typeOfName
  split <;> simp_all

theorem typeOfHint_eq_ok {h : Hint} {t : Ty} : typeOfHint r h = .ok t ↔ h.meaning r = .ok t := by
  unfold typeOfHint
  split <;> simp_all

/-! ## Expressions -/

/-- Arguments, one for each parameter, fit when each of them has a type below that of its parameter. -/
theorem fitArguments_eq_ok {callee : String} {i : Nat} {found params : List Ty} (h : found.length = params.length) :
    fitArguments r callee i found params = .ok () ↔
      List.Forall₂ (fun f p => Ty.isSubtype r f p = true) found params := by
  induction found generalizing i params with
  | nil =>
    cases params with
    | nil => simp [fitArguments]
    | cons => cases h
  | cons f fs ih =>
    cases params with
    | nil => cases h
    | cons p ps =>
      have hl : fs.length = ps.length := by simpa using h
      rw [fitArguments, List.forall₂_cons]
      cases hf : fits r f p with
      | ok u => simp [fits_eq_ok.1 hf, ih hl]
      | error c =>
        have hn : ¬ Ty.isSubtype r f p = true := fun he => by
          rw [fits_eq_ok.2 he] at hf
          cases hf
        simp [hn]

theorem inferAll_eq_ok {es : List Expr} {ts : List Ty} :
    inferAll r env es = .ok ts ↔ List.Forall₂ (fun e t => infer r env e = .ok t) es ts := by
  induction es generalizing ts with
  | nil => cases ts <;> simp [inferAll]
  | cons e es ih =>
    rw [inferAll, bind_eq_ok]
    constructor
    · rintro ⟨t, ht, h⟩
      obtain ⟨us, hus, he⟩ := bind_eq_ok.1 h
      cases he
      exact .cons ht (ih.1 hus)
    · intro h
      cases h with
      | cons ht hts => exact ⟨_, ht, bind_eq_ok.2 ⟨_, ih.2 hts, rfl⟩⟩

theorem infer_list_eq_ok {s : Span} {items : List Expr} {t : Ty} :
    infer r env (.list s items) = .ok t ↔
      ∃ ts, inferAll r env items = .ok ts ∧ t = listOf r (.join (ts.map Ty.widen)) := by
  rw [infer, bind_eq_ok]
  constructor
  · rintro ⟨ts, hts, h⟩
    cases h
    exact ⟨ts, hts, rfl⟩
  · rintro ⟨ts, hts, rfl⟩
    exact ⟨ts, hts, rfl⟩

/-- A call has a type when its callee is callable, with one parameter for each argument, and all arguments have
types below those of the parameters. -/
theorem apply_eq_ok {callee : String} {args : List Expr} {t : Ty} :
    apply r env callee args.length (inferAll r env args) = .ok t ↔
      ∃ params found, env.typeOf? callee = some (.callable params t) ∧ inferAll r env args = .ok found ∧
        List.Forall₂ (fun f p => Ty.isSubtype r f p = true) found params := by
  -- the checker counts the arguments before it looks at them
  have hlen : ∀ {found}, inferAll r env args = .ok found → args.length = found.length :=
    fun h => (inferAll_eq_ok.1 h).length_eq
  unfold apply
  rw [bind_eq_ok]
  constructor
  · rintro ⟨c, hc, h⟩
    cases c with
    | callable params ret =>
      simp only at h
      split at h
      · next hp =>
        obtain ⟨found, hf, h⟩ := bind_eq_ok.1 h
        obtain ⟨_, ha, h⟩ := bind_eq_ok.1 h
        cases h
        exact ⟨params, found, typeOfName_eq_ok.1 hc, hf, (fitArguments_eq_ok (hlen hf ▸ hp)).1 ha⟩
      · cases h
    | _ => cases h
  · rintro ⟨params, found, hc, hf, ha⟩
    refine ⟨_, typeOfName_eq_ok.2 hc, ?_⟩
    have hp : args.length = params.length := (hlen hf).trans ha.length_eq
    simp only [hp, if_true]
    exact bind_eq_ok.2 ⟨found, hf, bind_eq_ok.2 ⟨(), (fitArguments_eq_ok ha.length_eq).2 ha, rfl⟩⟩

/-! ## Statements -/

theorem fitsValue_eq_ok {e : Expr} {declared : Ty} :
    fitsValue r env e declared = .ok () ↔ ∃ t, infer r env e = .ok t ∧ Ty.isSubtype r t declared = true := by
  unfold fitsValue
  rw [bind_eq_ok]
  simp only [fits_eq_ok]

theorem typesOfParams_eq_ok {ps : List Param} {ts : List Ty} :
    typesOfParams r ps = .ok ts ↔ List.Forall₂ (fun p t => p.hint.meaning r = .ok t) ps ts := by
  induction ps generalizing ts with
  | nil => cases ts <;> simp [typesOfParams]
  | cons p ps ih =>
    rw [typesOfParams]
    cases hp : typeOfHint r p.hint with
    | ok t =>
      rw [bind_eq_ok]
      constructor
      · rintro ⟨us, hus, h⟩
        cases h
        exact .cons (typeOfHint_eq_ok.1 hp) (ih.1 hus)
      · intro h
        cases h with
        | cons ht hts =>
          rw [typeOfHint_eq_ok.2 ht] at hp
          cases hp
          exact ⟨_, ih.2 hts, rfl⟩
    | error c =>
      constructor
      · rintro ⟨⟩
      · intro h
        cases h with
        | cons ht _ =>
          rw [typeOfHint_eq_ok.2 ht] at hp
          cases hp

theorem typeOfFunction_eq_ok {ps : List Param} {ret : Hint} {t : Ty} :
    typeOfFunction r ps ret = .ok t ↔ ∃ ts u, List.Forall₂ (fun p t => p.hint.meaning r = .ok t) ps ts ∧
      ret.meaning r = .ok u ∧ t = .callable ts u := by
  unfold typeOfFunction
  rw [bind_eq_ok]
  constructor
  · rintro ⟨ts, hts, h⟩
    cases hu : typeOfHint r ret with
    | ok u =>
      rw [hu] at h
      cases h
      exact ⟨ts, u, typesOfParams_eq_ok.1 hts, typeOfHint_eq_ok.1 hu, rfl⟩
    | error c => rw [hu] at h; cases h
  · rintro ⟨ts, u, hts, hu, rfl⟩
    refine ⟨ts, typesOfParams_eq_ok.2 hts, ?_⟩
    rw [typeOfHint_eq_ok.2 hu]

theorem accepts_declare_eq_ok {x : Ident} {h : Hint} {init : Option Expr} :
    accepts r env (.declare x h init) = .ok () ↔ ∃ t, h.meaning r = .ok t ∧
      ∀ e ∈ init, ∃ u, infer r env e = .ok u ∧ Ty.isSubtype r u t = true := by
  rw [accepts, bind_eq_ok]
  simp only [typeOfHint_eq_ok]
  cases init with
  | none => simp
  | some e => simp [fitsValue_eq_ok]

theorem accepts_assign_eq_ok {x : Ident} {e : Expr} :
    accepts r env (.assign x e) = .ok () ↔ ∃ t u, env.typeOf? x.name = some t ∧ infer r env e = .ok u ∧
      Ty.isSubtype r u t = true := by
  rw [accepts, bind_eq_ok]
  simp only [typeOfName_eq_ok, fitsValue_eq_ok, exists_and_left]

theorem accepts_call_eq_ok {f : Ident} {args : List Expr} :
    accepts r env (.call f args) = .ok () ↔ ∃ t, apply r env f.name args.length (inferAll r env args) = .ok t := by
  rw [accepts, bind_eq_ok]
  simp

theorem accepts_define_eq_ok {f : Ident} {ps : List Param} {ret : Hint} :
    accepts r env (.define f ps ret) = .ok () ↔ ∃ t, typeOfFunction r ps ret = .ok t := by
  rw [accepts, bind_eq_ok]
  simp

theorem status_verdict {index : Nat} {s : Statement} :
    (verdict r env index s).status = .ok ↔ accepts r env s.kind = .ok () := by
  unfold verdict
  cases accepts r env s.kind with
  | ok => simp [Verdict.ok]
  | error c => simp [Rejection.verdict, Verdict.withCode, Verdict.err]

end AnnotationChecker.Checker
