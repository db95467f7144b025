import AnnotationChecker.Proofs.Hint.Spelling
/-!
# What `Literal` stands for

The arguments of a nested `Literal` count as those of the outer one (`flattened`), so `Literal` is about a list of
arguments none of which is a `Literal` (`constantsList_flattened`). When all of them are constants of one kind, but for
`None`, it stands for the union of their types; otherwise the first argument that is no such constant is its fault, and
when there is none, the first one of another kind (`literal_exact`).
-/

namespace AnnotationChecker.Hint

open Checker (bind_eq_ok)

/-! ## Flattening -/

instance (base name : String) : Decidable (IsNamed base name) := inferInstanceAs (Decidable (_ ∨ _))

mutual

/-- An argument of `Literal`; in the place of a nested `Literal` stand its own arguments. -/
def spliced : Hint → List Hint
  | .subscript s base args => if IsNamed base "Literal" then flattened args else [.subscript s base args]
  | .name s n => [.name s n]
  | .list s items => [.list s items]
  | .or s l r => [.or s l r]
  | .const s c => [.const s c]

/-- The arguments of `Literal`, with those of nested ones in their places, at any depth. -/
def flattened : List Hint → List Hint
  | [] => []
  | h :: hs => spliced h ++ flattened hs

end

theorem flattened_eq_flatMap (hs : List Hint) : flattened hs = hs.flatMap spliced := by
  induction hs with
  | nil => rfl
  | cons h hs ih => rw [flattened, ih, List.flatMap_cons]

/-- A name without its module is a name that the whole stands for. -/
theorem isNamed_stripModule (base : String) : IsNamed base (stripModule base) := by
  unfold stripModule
  cases h : modules.findSome? (afterModule? base) with
  | none => exact .inl rfl
  | some n =>
    obtain ⟨m, hm, hafter⟩ := List.exists_of_findSome?_eq_some h
    refine .inr ⟨m, hm, ?_⟩
    unfold afterModule? at hafter
    split at hafter
    · next hp =>
      cases hafter
      obtain ⟨rest, hrest⟩ := List.isPrefixOf_iff_prefix.1 hp
      rw [Option.getD_some, ← String.toList_inj, String.toList_append, String.toList_ofList, ← hrest, String.length,
        List.drop_left]
    · cases hafter

theorem stripModule_eq_literal_iff {base : String} : stripModule base = "Literal" ↔ IsNamed base "Literal" := by
  constructor
  · intro h
    rw [← h]
    exact isNamed_stripModule base
  · rintro (rfl | ⟨m, hm, rfl⟩)
    · decide
    · have hall : ∀ m ∈ modules, stripModule (m ++ "Literal") = "Literal" := by decide
      exact hall m hm

/-- What is left after flattening is no `Literal`. -/
theorem not_isNamed_of_mem_spliced {h e : Hint} (he : e ∈ spliced h) {s : Span} {base : String} {args : List Hint}
    (heq : e = .subscript s base args) : ¬ IsNamed base "Literal" := by
  induction h using inductionOn with
  | subscript s' base' args' ih =>
    rw [spliced] at he
    split at he
    · rw [flattened_eq_flatMap] at he
      obtain ⟨h, hh, he⟩ := List.mem_flatMap.1 he
      exact ih h hh he
    · next hbase =>
      rw [List.mem_singleton.1 he] at heq
      cases heq
      exact hbase
  | _ =>
    rw [spliced, List.mem_singleton] at he
    rw [he] at heq
    cases heq

theorem constantsList_singleton (h : Hint) : constantsList [h] = constants h := by
  rw [constantsList, constantsList]
  cases constants h with
  | error f => rfl
  | ok vs => exact congrArg Except.ok (List.append_nil vs)

theorem constantsList_append (hs ks : List Hint) :
    constantsList (hs ++ ks) = (do
      let vs ← constantsList hs
      let ws ← constantsList ks
      .ok (vs ++ ws)) := by
  induction hs with
  | nil => cases h : constantsList ks <;> simp [constantsList, h, bind, Except.bind]
  | cons h hs ih =>
    rw [List.cons_append, constantsList, constantsList, ih]
    cases constants h with
    | error f => rfl
    | ok us =>
      cases constantsList hs <;> cases constantsList ks <;> simp [bind, Except.bind]

theorem constantsList_flattened_of {hs : List Hint} (h : ∀ a ∈ hs, constantsList (spliced a) = constants a) :
    constantsList (flattened hs) = constantsList hs := by
  induction hs with
  | nil => rfl
  | cons a hs ih =>
    rw [flattened, constantsList_append, constantsList, h a (by simp), ih fun b hb => h b (List.mem_cons_of_mem _ hb)]

theorem constantsList_spliced (h : Hint) : constantsList (spliced h) = constants h := by
  induction h using inductionOn with
  | subscript s base args ih =>
    rw [spliced]
    split
    · next hbase => rw [constantsList_flattened_of ih, constants, if_pos (stripModule_eq_literal_iff.2 hbase)]
    · exact constantsList_singleton _
  | _ => rw [spliced, constantsList_singleton]

/-- Flattening changes nothing for `Literal`. -/
theorem constantsList_flattened (hs : List Hint) : constantsList (flattened hs) = constantsList hs :=
  constantsList_flattened_of fun a _ => constantsList_spliced a

/-! ## Constants -/

/-- An integer, a string, a truth value or `None`. -/
def IsConstant (h : Hint) : Prop := ∃ s c, h = .const s c ∧ ∀ x, c ≠ .float x

/-- The value that a constant has as a literal; `None` has none. -/
def value? : Hint → Option Literal
  | .const _ (.int v) => some (.int v)
  | .const _ (.str v) => some (.str v)
  | .const _ (.bool v) => some (.bool v)
  | _ => none

/-- The type of the literal with a value, or that of `None`. -/
def literalTy (v : Option Literal) : Ty := (v.map Ty.literal).getD Ty.none

theorem constants_of_isConstant {e : Hint} (h : e.IsConstant) : constants e = .ok [e.value?] := by
  obtain ⟨s, c, rfl, hfloat⟩ := h
  cases c with
  | float x => exact absurd rfl (hfloat x)
  | _ => rfl

variable {es front back : List Hint} {e : Hint}

theorem constantsList_of_isConstant (h : ∀ e ∈ es, e.IsConstant) : constantsList es = .ok (es.map value?) := by
  induction es with
  | nil => rfl
  | cons e es ih =>
    obtain ⟨he, hes⟩ := List.forall_mem_cons.1 h
    rw [constantsList, constants_of_isConstant he, ih hes]
    rfl

/-- The first argument with a fault decides. -/
theorem constantsList_of_fault (hfront : ∀ a ∈ front, a.IsConstant) {f : HintFault} (he : constants e = .error f)
    (back : List Hint) : constantsList (front ++ e :: back) = .error f := by
  rw [constantsList_append, constantsList_of_isConstant hfront, constantsList, he]
  rfl

/-- What is neither a constant nor a `Literal` is a fault. -/
theorem constants_of_not_const (hconst : ∀ s c, e ≠ .const s c)
    (hliteral : ∀ s base args, e = .subscript s base args → ¬ IsNamed base "Literal") :
    constants e = .error (.notConstant e.text) := by
  cases e with
  | const s c => exact absurd rfl (hconst s c)
  | subscript s base args =>
    rw [constants, if_neg fun h => hliteral s base args rfl (stripModule_eq_literal_iff.1 h)]
  | _ => rw [constants, text]

/-! ## Kinds -/

/-- The kind that values have to have: a given one, or that of the first of them. -/
def expected (k : Option Primitive) (vs : List (Option Literal)) : Option Primitive :=
  k.or ((vs.filterMap id).head?.map Literal.kind)

/-- All values have the kind that they have to have. -/
def Fit (k : Option Primitive) (vs : List (Option Literal)) : Prop :=
  ∀ v ∈ vs.filterMap id, ∀ p ∈ expected k vs, v.kind = p

section

variable {k : Option Primitive} {vs : List (Option Literal)} {v w : Literal} {p : Primitive}

theorem fit_none_cons : Fit k (none :: vs) ↔ Fit k vs := Iff.rfl

theorem fit_some_cons : Fit (some p) (some v :: vs) ↔ v.kind = p ∧ Fit (some p) vs := by
  simp [Fit, expected]

/-- The first value decides. -/
theorem fit_first_cons : Fit none (some v :: vs) ↔ Fit (some v.kind) vs := by
  simp [Fit, expected]

/-- Without a given kind, all values are of one kind. -/
theorem fit_iff : Fit none vs ↔ ∀ v ∈ vs.filterMap id, ∀ w ∈ vs.filterMap id, v.kind = w.kind := by
  unfold Fit expected
  cases vs.filterMap id with
  | nil => simp
  | cons u us =>
    simp only [Option.none_or, List.head?_cons, Option.map_some, Option.mem_some_iff, forall_eq']
    constructor
    · intro h v hv w hw
      rw [h v hv, h w hw]
    · intro h v hv
      exact h v hv u (by simp)

theorem literalTypes_eq_ok_iff {ts : List Ty} : literalTypes k vs = .ok ts ↔ Fit k vs ∧ ts = vs.map literalTy := by
  have hcons : ∀ {m : Except HintFault (List Ty)} {t : Ty} {us : List Ty},
      (do let ts ← m; .ok (t :: ts)) = .ok us ↔ ∃ ts, m = .ok ts ∧ us = t :: ts := by
    intro m t us
    rw [bind_eq_ok]
    simp only [Except.ok.injEq, eq_comm]
  fun_induction literalTypes k vs generalizing ts with
  | case1 k => simp [Fit, eq_comm]
  | case2 k vs ih =>
    rw [hcons, fit_none_cons]
    simp only [ih, and_assoc, exists_and_left, exists_eq_left, List.map_cons]
    rfl
  | case3 v vs ih =>
    rw [hcons, fit_first_cons]
    simp only [ih, and_assoc, exists_and_left, exists_eq_left, List.map_cons]
    rfl
  | case4 v vs ih =>
    rw [hcons, fit_some_cons]
    simp only [ih, and_assoc, exists_and_left, exists_eq_left, List.map_cons, true_and]
    rfl
  | case5 k v vs hne => simp [fit_some_cons, hne]

/-- The first value of another kind decides. -/
theorem literalTypes_of_mixed {front : List (Option Literal)} (hp : expected k front = some p)
    (hfront : ∀ v ∈ front.filterMap id, v.kind = p) (hw : w.kind ≠ p) (back : List (Option Literal)) :
    literalTypes k (front ++ some w :: back) = .error (.mixedLiteral w p) := by
  induction front generalizing k with
  | nil =>
    obtain rfl : k = some p := by simpa [expected] using hp
    rw [List.nil_append, literalTypes, if_neg hw]
  | cons v front ih =>
    cases v with
    | none =>
      rw [List.cons_append, literalTypes, ih hp hfront]
      rfl
    | some v =>
      obtain ⟨hv, hfront⟩ : v.kind = p ∧ ∀ v ∈ front.filterMap id, v.kind = p := by simpa using hfront
      subst hv
      have hrest : literalTypes (some v.kind) (front ++ some w :: back) = .error (.mixedLiteral w v.kind) := ih rfl hfront
      cases k with
      | none =>
        rw [List.cons_append, literalTypes, hrest]
        rfl
      | some k =>
        obtain rfl : k = v.kind := by simpa [expected] using hp
        rw [List.cons_append, literalTypes, if_pos rfl, hrest]
        rfl

end

/-! ## The type, or the fault -/

/-- The values of some constants, without `None`. -/
def values (es : List Hint) : List Literal := es.filterMap value?

theorem filterMap_map_value? (es : List Hint) : (es.map value?).filterMap id = values es := by
  rw [List.filterMap_map, values]
  rfl

/-- What a `Literal` with some arguments, none of them a `Literal`, is said to mean. -/
structure LiteralOf (es : List Hint) (m : Except HintFault Ty) : Prop where
  /-- It has a type just when all arguments are constants, and all of them but `None` of one kind. -/
  succeeds : (∃ t, m = .ok t) ↔ (∀ e ∈ es, e.IsConstant) ∧ ∀ v ∈ values es, ∀ w ∈ values es, v.kind = w.kind
  /-- The type is the union of those of the constants, each at its first occurrence. -/
  type : ∀ t, m = .ok t → t = .ofMembers (es.map fun e => literalTy e.value?).eraseDups
  /-- A float is a fault when it is the first argument that is wrong by itself. -/
  float : ∀ front s x back, es = front ++ .const s (.float x) :: back → (∀ a ∈ front, a.IsConstant) →
    m = .error (.floatLiteral x) ∧ (HintFault.floatLiteral x).code = .invalidLiteralKind
  /-- So is what is no constant. -/
  other : ∀ front e back, es = front ++ e :: back → (∀ a ∈ front, a.IsConstant) → (∀ s c, e ≠ .const s c) →
    m = .error (.notConstant e.text) ∧ (HintFault.notConstant e.text).code = .malformedHint
  /-- Among constants, the first one of another kind than the first one that is not `None` is. -/
  mixed : ∀ front e back v rest w, (∀ a ∈ es, a.IsConstant) → es = front ++ e :: back → values front = v :: rest →
    (∀ u ∈ rest, u.kind = v.kind) → e.value? = some w → w.kind ≠ v.kind →
    m = .error (.mixedLiteral w v.kind) ∧ (HintFault.mixedLiteral w v.kind).code = .invalidLiteralKind

theorem literalUnion_flattened (args : List Hint) : literalUnion (flattened args) = literalUnion args := by
  rw [literalUnion, literalUnion, constantsList_flattened]

/-- All arguments that are read are constants. -/
theorem isConstant_of_constantsList {vs : List (Option Literal)} (h : constantsList es = .ok vs)
    (hliteral : ∀ e ∈ es, ∀ s base args, e = .subscript s base args → ¬ IsNamed base "Literal") :
    ∀ e ∈ es, e.IsConstant := by
  induction es generalizing vs with
  | nil => simp
  | cons e es ih =>
    obtain ⟨he, hes⟩ := List.forall_mem_cons.1 hliteral
    obtain ⟨us, hus, h⟩ := bind_eq_ok.1 h
    obtain ⟨ws, hws, -⟩ := bind_eq_ok.1 h
    refine List.forall_mem_cons.2 ⟨?_, ih hws hes⟩
    by_cases hconst : ∃ s c, e = .const s c
    · obtain ⟨s, c, rfl⟩ := hconst
      refine ⟨s, c, rfl, fun x hx => ?_⟩
      rw [hx] at hus
      cases hus
    · have hfault := constants_of_not_const (fun s c hc => hconst ⟨s, c, hc⟩) he
      rw [hfault] at hus
      cases hus

/-- The types of values have no members but themselves, so joining them is a matter of leaving out repetitions. -/
theorem join_literalTys (vs : List (Option Literal)) :
    Ty.join (vs.map literalTy) = .ofMembers (vs.map literalTy).eraseDups := by
  have hmember : ∀ v, (literalTy v).members = [literalTy v] := by
    intro v
    cases v <;> rfl
  have hflat : (vs.map literalTy).flatMap Ty.members = vs.map literalTy := by
    induction vs with
    | nil => rfl
    | cons v vs ih => rw [List.map_cons, List.flatMap_cons, hmember, ih, List.singleton_append]
  rw [Ty.join, hflat, Ty.distinct_eq_eraseDups]

theorem literalUnion_eq_ok_iff {t : Ty}
    (hliteral : ∀ e ∈ es, ∀ s base args, e = .subscript s base args → ¬ IsNamed base "Literal") :
    literalUnion es = .ok t ↔ (∀ e ∈ es, e.IsConstant) ∧ Fit none (es.map value?) ∧
      t = .ofMembers (es.map fun e => literalTy e.value?).eraseDups := by
  have hjoin := join_literalTys (es.map value?)
  rw [List.map_map] at hjoin
  rw [literalUnion, bind_eq_ok]
  constructor
  · rintro ⟨vs, hvs, h⟩
    have hconst := isConstant_of_constantsList hvs hliteral
    rw [constantsList_of_isConstant hconst, Except.ok.injEq] at hvs
    subst hvs
    obtain ⟨ts, hts, ht⟩ := bind_eq_ok.1 h
    obtain ⟨hfit, rfl⟩ := literalTypes_eq_ok_iff.1 hts
    rw [List.map_map, Except.ok.injEq] at ht
    exact ⟨hconst, hfit, ht ▸ hjoin⟩
  · rintro ⟨hconst, hfit, rfl⟩
    refine ⟨_, constantsList_of_isConstant hconst, ?_⟩
    rw [literalTypes_eq_ok_iff.2 ⟨hfit, rfl⟩, List.map_map]
    exact congrArg Except.ok hjoin

/-- **`Literal` means its flattened list of constants.** With or without the name of its module, and whatever else is
registered, a `Literal` is about the list of its arguments in which every nested one is replaced by its own. It has a
type just when all of them are constants but no floats, and those that are not `None` are of one kind; that is the
union of their types in the order of first occurrence. Otherwise the first one that is a float or no constant is its
fault, and among constants the first one of another kind than the first that is not `None`. -/
theorem literal_exact {base : String} (hbase : IsNamed base "Literal") (r : Registry) (s : Span) (args : List Hint) :
    LiteralOf (flattened args) (meaning r (.subscript s base args)) := by
  have hliteral : ∀ e ∈ flattened args, ∀ s base args, e = .subscript s base args → ¬ IsNamed base "Literal" := by
    intro e he s base args heq
    rw [flattened_eq_flatMap] at he
    obtain ⟨h, -, he⟩ := List.mem_flatMap.1 he
    exact not_isNamed_of_mem_spliced he heq
  rw [meaning_literal (hbase.form (by decide)), ← literalUnion_flattened]
  generalize flattened args = es at hliteral ⊢
  have hok : ∀ t, literalUnion es = .ok t ↔ _ := fun t => literalUnion_eq_ok_iff hliteral
  constructor
  · simp only [hok, exists_and_left, exists_eq, and_true, fit_iff, filterMap_map_value?]
  · intro t ht
    exact ((hok t).1 ht).2.2
  · rintro front s x back rfl hfront
    refine ⟨?_, rfl⟩
    rw [literalUnion, constantsList_of_fault hfront (f := .floatLiteral x) rfl]
    rfl
  · rintro front e back rfl hfront hconst
    refine ⟨?_, rfl⟩
    rw [literalUnion, constantsList_of_fault hfront (constants_of_not_const hconst (hliteral e (by simp)))]
    rfl
  · rintro front e back v rest w hconst rfl hvalues hrest hw hkind
    refine ⟨?_, rfl⟩
    have hfirst : expected none (front.map value?) = some v.kind := by
      rw [expected, filterMap_map_value?, hvalues]
      rfl
    have hsame : ∀ u ∈ (front.map value?).filterMap id, u.kind = v.kind := by
      rw [filterMap_map_value?, hvalues]
      exact List.forall_mem_cons.2 ⟨rfl, hrest⟩
    rw [literalUnion, constantsList_of_isConstant hconst, List.map_append, List.map_cons, hw]
    show (do let ts ← literalTypes none _; Except.ok (Ty.join ts)) = _
    rw [literalTypes_of_mixed hfirst hsame hkind]
    rfl

/-- `typing.Literal[1, Literal[None, typing.Literal[2, 1]]]` is `Literal[1, None, 2]`. -/
theorem literal_exact_nested :
    let one : Hint := .const nowhere (.int 1)
    let two : Hint := .const nowhere (.int 2)
    let args : List Hint :=
      [one, .subscript nowhere "Literal" [.const nowhere .none, .subscript nowhere "typing.Literal" [two, one]]]
    IsNamed "typing.Literal" "Literal" ∧ flattened args = [one, .const nowhere .none, two, one] ∧
      LiteralOf (flattened args) (meaning .builtin (.subscript nowhere "typing.Literal" args)) ∧
      meaning .builtin (.subscript nowhere "typing.Literal" args) =
        .ok (.union [.literal (.int 1), Ty.none, .literal (.int 2)]) :=
  ⟨by decide, by rfl, literal_exact (by decide) .builtin nowhere _, by rfl⟩

end AnnotationChecker.Hint
