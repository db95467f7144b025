import AnnotationChecker.Proofs.Hint.Literal
import AnnotationChecker.Proofs.Registry.Conformance
import AnnotationChecker.Proofs.Ty.Hint
/-!
# The meaning of the hint of a type

The hint of a type stands for the type, normalized: grouping literals and chaining alternatives from the left
joins the same types in the same order. The constructors need names that are read as their own.
-/

namespace AnnotationChecker

open Hint (nowhere meaning meanings)
open Checker (bind_eq_ok)

/-! ## Registries -/

/-- Every constructor has a name that stands in a hint for nothing else. -/
def Registry.Readable (r : Registry) : Prop :=
  ∀ c spec, r.resolve? c = some (c, spec) →
    IsName c ∧ Hint.stripModule c = c ∧ Hint.Form.ofBase c = .generic

theorem Registry.builtin_readable : builtin.Readable := by
  have all : ∀ e ∈ builtin.containers.entries,
      IsName e.1 ∧ Hint.stripModule e.1 = e.1 ∧ Hint.Form.ofBase e.1 = .generic := by decide
  exact fun c spec h => all _ (resolve?_mem h)

namespace Ty

variable {r : Registry}

/-! ## The hint is legible -/

theorem legible_ofLiterals {vs : List Literal} (h : vs ≠ []) : (Hint.ofLiterals vs).Legible := by
  have hwords : IsName "Literal" := by decide
  refine .subscript hwords (by simpa using h) (List.forall_mem_map.2 fun v _ => .const ?_)
  intro f hf
  cases v <;> cases hf

theorem legible_closed (vs : List Literal) : ∀ h ∈ closed vs, h.Legible := by
  cases vs with
  | nil => simp [closed]
  | cons v vs => simpa [closed] using legible_ofLiterals (List.cons_ne_nil v vs)

theorem legible_alternatives (vs : List Literal) {ts : List Ty} (hts : ∀ t ∈ ts, t.hint.Legible) :
    ∀ h ∈ alternatives vs ts, h.Legible := by
  induction vs, ts using membersInduction with
  | nil vs => exact legible_closed vs
  | same vs v ts hj ih =>
    rw [alternatives_literal, if_pos hj]
    exact ih fun t ht => hts t (List.mem_cons_of_mem _ ht)
  | differs vs v ts hj ih =>
    rw [alternatives_literal, if_neg (by simp [hj])]
    exact List.forall_mem_append.2 ⟨legible_closed vs, ih fun t ht => hts t (List.mem_cons_of_mem _ ht)⟩
  | other vs t ts ht ih =>
    rw [alternatives_other ht]
    refine List.forall_mem_append.2 ⟨legible_closed vs, List.forall_mem_cons.2 ⟨hts t (by simp), ?_⟩⟩
    exact ih fun t ht => hts t (List.mem_cons_of_mem _ ht)

theorem legible_ofAlternatives {h : Hint} {hs : List Hint} (hh : h.Legible) (hhs : ∀ a ∈ hs, a.Legible) :
    (Hint.ofAlternatives (h :: hs)).Legible := by
  induction hs generalizing h with
  | nil => exact hh
  | cons a hs ih =>
    rw [Hint.ofAlternatives_cons_cons]
    exact ih (.or hh (hhs a (by simp))) fun b hb => hhs b (List.mem_cons_of_mem _ hb)

theorem legible_hint {t : Ty} (hr : r.Readable) (hc : t.Consistent r) (hp : t.Proper) : t.hint.Legible := by
  induction t using inductionOn with
  | primitive k =>
    cases k with
    | none => exact .const fun _ h => by cases h
    | _ => exact .name (by decide)
  | literal v => exact legible_ofLiterals (by simp)
  | never => exact .name (by decide)
  | container c e v ih =>
    obtain ⟨spec, hres, -⟩ := hc.ctor
    rw [hint]
    refine .subscript (hr c spec hres).1 (by simp) ?_
    simpa using ih hc.element hp.element
  | callable ps t ihp iht =>
    have hwords : IsName "Callable" := by decide
    rw [hint, hintList_eq_map]
    refine .subscript hwords (by simp) (List.forall_mem_cons.2 ⟨.list ?_, ?_⟩)
    · exact List.forall_mem_map.2 fun p hm => ihp p hm (hc.param hm) (hp.param hm)
    · simpa using iht hc.ret hp.ret
  | union ts ih =>
    obtain ⟨a, as, ha⟩ := exists_alternatives [] hp.ne_nil
    have hall := legible_alternatives [] fun t ht => ih t ht (hc.member ht) (hp.member ht)
    rw [ha, List.forall_mem_cons] at hall
    rw [hint, ha]
    exact legible_ofAlternatives hall.1 hall.2

/-! ## What it means -/

/-- Literals of one kind are joined. -/
theorem meaning_ofLiterals {vs : List Literal} (h : Uniform vs) :
    meaning r (.ofLiterals vs) = .ok (join (vs.map .literal)) := by
  have hform : Hint.Form.ofBase (Hint.stripModule "Literal") = .literal := by decide
  have hconst : ∀ e ∈ vs.map fun v => Hint.const nowhere v.const, e.IsConstant :=
    List.forall_mem_map.2 fun v _ => ⟨_, _, rfl, fun x => by cases v <;> exact Const.noConfusion⟩
  have hvalues : (vs.map fun v => Hint.const nowhere v.const).map Hint.value? = vs.map some := by
    rw [List.map_map]
    exact List.map_congr_left fun v _ => by cases v <;> rfl
  have hfit : Hint.Fit Option.none (vs.map some) := Hint.fit_iff.2 (by simpa [Uniform] using h)
  rw [Hint.ofLiterals, Hint.meaning_literal hform, Hint.literalUnion, Hint.constantsList_of_isConstant hconst, hvalues]
  show (do let ts ← Hint.literalTypes Option.none (vs.map some); Except.ok (join ts)) = _
  rw [Hint.literalTypes_eq_ok_iff.2 ⟨hfit, rfl⟩, List.map_map]
  rfl

theorem flat_literals (vs : List Literal) : ∀ t ∈ vs.map literal, t.Flat :=
  List.forall_mem_map.2 fun _ _ => IsMember.flat rfl

/-- A closed group stands for its literals, wherever they are joined. -/
theorem meanings_closed {vs : List Literal} (h : Uniform vs) :
    ∃ us, meanings r (closed vs) = .ok us ∧
      ∀ xs zs, join (xs ++ (us ++ zs)) = join (xs ++ (vs.map .literal ++ zs)) := by
  cases vs with
  | nil => exact ⟨[], rfl, fun xs zs => rfl⟩
  | cons v vs =>
    refine ⟨[join ((v :: vs).map .literal)], ?_, fun xs zs => ?_⟩
    · rw [closed, Hint.meanings_cons, meaning_ofLiterals h]
      · rfl
      · simp
    · rw [List.singleton_append, join_splice xs zs (flat_literals (v :: vs)), List.append_assoc]

/-- The types of an open group and of the members behind it, joined behind others. -/
theorem meanings_alternatives (vs : List Literal) (ts : List Ty) (hvs : Uniform vs)
    (hts : ∀ t ∈ ts, meaning r t.hint = .ok t.normalized) :
    ∃ us, meanings r (alternatives vs ts) = .ok us ∧
      ∀ xs, join (xs ++ us) = join (xs ++ (vs.map .literal ++ ts.map normalized)) := by
  induction vs, ts using membersInduction with
  | nil vs =>
    obtain ⟨us, hus, hj⟩ := meanings_closed (r := r) hvs
    exact ⟨us, hus, fun xs => by simpa using hj xs []⟩
  | same vs v ts hj ih =>
    obtain ⟨us, hus, hjoin⟩ := ih (.concat hj) fun t ht => hts t (List.mem_cons_of_mem _ ht)
    rw [alternatives_literal, if_pos hj]
    refine ⟨us, hus, fun xs => ?_⟩
    rw [hjoin xs]
    simp [normalized]
  | differs vs v ts hj ih =>
    obtain ⟨us, hus, hjoin⟩ := ih (uniform_singleton v) fun t ht => hts t (List.mem_cons_of_mem _ ht)
    obtain ⟨ws, hws, hclosed⟩ := meanings_closed (r := r) hvs
    rw [alternatives_literal, if_neg (by simp [hj])]
    refine ⟨ws ++ us, Hint.meanings_append_of_ok hws hus, fun xs => ?_⟩
    rw [hclosed, ← List.append_assoc, hjoin]
    simp [normalized]
  | other vs t ts ht ih =>
    obtain ⟨us, hus, hjoin⟩ := ih (by simp [Uniform]) fun t ht => hts t (List.mem_cons_of_mem _ ht)
    obtain ⟨ws, hws, hclosed⟩ := meanings_closed (r := r) hvs
    have hmember : meanings r (t.hint :: alternatives [] ts) = .ok (t.normalized :: us) := by
      rw [Hint.meanings_cons, hts t (by simp), hus]
      rfl
    rw [alternatives_other ht]
    refine ⟨ws ++ t.normalized :: us, Hint.meanings_append_of_ok hws hmember, fun xs => ?_⟩
    -- all that stands before the members which are left is what the induction joins them behind
    have hsplit : xs ++ (vs.map literal ++ t.normalized :: us) = xs ++ vs.map literal ++ [t.normalized] ++ us := by simp
    rw [hclosed, hsplit, hjoin]
    simp

/-- A chain stands for all of its alternatives joined. -/
theorem meaning_ofAlternatives {h : Hint} {hs : List Hint} {us : List Ty} (hus : meanings r (h :: hs) = .ok us) :
    meaning r (.ofAlternatives (h :: hs)) = .ok (join us) := by
  induction hs generalizing h us with
  | nil =>
    rw [Hint.meanings_cons, bind_eq_ok] at hus
    obtain ⟨u, hu, hus⟩ := hus
    cases hus
    rw [(Hint.flat_meaning hu).joined]
    exact hu
  | cons h' hs ih =>
    rw [Hint.meanings_cons, bind_eq_ok] at hus
    obtain ⟨u, hu, hus⟩ := hus
    obtain ⟨ws, hws, hus⟩ := bind_eq_ok.1 hus
    cases hus
    rw [Hint.meanings_cons, bind_eq_ok] at hws
    obtain ⟨w, hw, hws⟩ := hws
    obtain ⟨zs, hzs, hws⟩ := bind_eq_ok.1 hws
    cases hws
    have hflat : ∀ y ∈ [u, w], y.Flat := by
      simp [Hint.flat_meaning hu, Hint.flat_meaning hw]
    -- the first two alternatives make one hint, whose type is flat again
    have hboth : meanings r (.or nowhere h h' :: hs) = .ok (join [u, w] :: zs) := by
      rw [Hint.meanings_cons, Hint.meaning_or, hu, hw, hzs]
      rfl
    rw [Hint.ofAlternatives_cons_cons, ih hboth]
    exact congrArg Except.ok (join_splice [] zs hflat)

theorem meanings_hint {ts : List Ty} (h : ∀ t ∈ ts, meaning r t.hint = .ok t.normalized) :
    meanings r (ts.map hint) = .ok (ts.map normalized) := by
  induction ts with
  | nil => rfl
  | cons t ts ih =>
    rw [List.map_cons, Hint.meanings_cons, h t (by simp), ih fun u hu => h u (List.mem_cons_of_mem _ hu)]
    rfl

/-- The hint of a type stands for the type, normalized. -/
theorem meaning_hint {t : Ty} (hr : r.Readable) (hc : t.Consistent r) (hp : t.Proper) :
    meaning r t.hint = .ok t.normalized := by
  induction t using inductionOn with
  | primitive k =>
    have hstrip : Hint.stripModule k.text = k.text := by cases k <;> decide
    have hname : Primitive.ofName? k.text = some k := by cases k <;> decide
    cases k with
    | none => rfl
    | _ =>
      show meaning r (.name nowhere _) = _
      rw [Hint.meaning_name, hstrip, Hint.named, hname]
      rfl
  | literal v =>
    have hflat : Flat (.literal v) := IsMember.flat rfl
    rw [hint, meaning_ofLiterals (uniform_singleton v), List.map_singleton, hflat.joined]
    rfl
  | never =>
    have hname : Hint.named r (Hint.stripModule "Never") = .ok .never := by
      have hstrip : Hint.stripModule "Never" = "Never" := by decide
      rw [hstrip]
      rfl
    rw [hint, Hint.meaning_name, hname]
    rfl
  | container c e v ih =>
    obtain ⟨spec, hres, rfl⟩ := hc.ctor
    obtain ⟨-, hstrip, hform⟩ := hr c spec hres
    rw [← hstrip] at hform hres
    rw [hint, Hint.meaning_generic hform hres, ih hc.element hp.element, hstrip, normalized]
    rfl
  | callable ps t ihp iht =>
    have hform : Hint.Form.ofBase (Hint.stripModule "Callable") = .callable := by decide
    have hps : Hint.paramTypes r (.list nowhere (ps.map hint)) = .ok (ps.map normalized) :=
      meanings_hint fun p hm => ihp p hm (hc.param hm) (hp.param hm)
    rw [hint, hintList_eq_map, Hint.meaning_callable hform, hps, iht hc.ret hp.ret, normalized, normalizedList_eq_map]
    rfl
  | union ts ih =>
    obtain ⟨a, as, ha⟩ := exists_alternatives [] hp.ne_nil
    obtain ⟨us, hus, hjoin⟩ := meanings_alternatives [] ts (by simp [Uniform]) fun t ht =>
      ih t ht (hc.member ht) (hp.member ht)
    rw [ha] at hus
    rw [hint, ha, meaning_ofAlternatives hus, normalized, normalizedList_eq_map]
    exact congrArg Except.ok (hjoin [])

end Ty

end AnnotationChecker
