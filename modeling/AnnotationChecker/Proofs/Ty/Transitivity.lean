import AnnotationChecker.Proofs.Registry.Conformance
import AnnotationChecker.Proofs.Ty.Parts
/-!
# When subtyping is transitive

Containers below an invariant one have equivalent elements, and a covariant container forgets that. So
subtyping of types that a registry knows is transitive unless a covariant constructor conforms to an
invariant one (`trans_of_orderly`), and then it is not: `C[Never] <: C[int] <: D[int]`
(`not_transitive_of_breaks`).
-/

namespace AnnotationChecker

/-- Some covariant constructor conforms to an invariant one. -/
def Registry.CovariantBelowInvariant (r : Registry) : Prop :=
  ∃ c d cs ds, r.resolve? c = some (c, cs) ∧ r.resolve? d = some (d, ds) ∧
    cs.variance = .covariant ∧ ds.variance = .invariant ∧ r.conforms c d = true

namespace Ty

variable {r : Registry}

/-- Subtyping of the types that a registry knows is transitive. -/
def Transitive (r : Registry) : Prop :=
  ∀ a b c : Ty, a.Consistent r → b.Consistent r → c.Consistent r →
    isSubtype r a b = true → isSubtype r b c = true → isSubtype r a c = true

/-- Transitivity for all types of fewer than `n` constructors in total. -/
def TransitiveBelow (r : Registry) (n : Nat) : Prop :=
  ∀ a b c : Ty, size a + size b + size c < n → a.Consistent r → b.Consistent r → c.Consistent r →
    isSubtype r a b = true → isSubtype r b c = true → isSubtype r a c = true

/-! ## Transitivity -/

/-- In an orderly registry what conforms to an invariant constructor is invariant. -/
theorem invariant_of_conforms (hr : ¬ r.CovariantBelowInvariant) {c d : String} {e f : Ty} {v w : Variance}
    (hc : Consistent r (.container c e v)) (hd : Consistent r (.container d f w)) (h : r.conforms c d = true)
    (hw : w = .invariant) : v = .invariant := by
  obtain ⟨cs, hcs, rfl⟩ := hc.ctor
  obtain ⟨ds, hds, rfl⟩ := hd.ctor
  cases hv : cs.variance with
  | invariant => rfl
  | covariant => exact absurd ⟨c, d, cs, ds, hcs, hds, hv, hw, h⟩ hr

theorem trans_container {n : Nat} (ih : TransitiveBelow r n) (hr : ¬ r.CovariantBelowInvariant)
    {c d g : String} {e f k : Ty} {v w x : Variance} (hn : size e + size f + size k < n)
    (ha : Consistent r (.container c e v)) (hb : Consistent r (.container d f w))
    (hc : Consistent r (.container g k x)) (hcd : r.conforms c d = true) (hdg : r.conforms d g = true)
    (hef : isSubtype r e f = true) (hfk : isSubtype r f k = true)
    (hfe : w = .invariant → isSubtype r f e = true) (hkf : x = .invariant → isSubtype r k f = true) :
    isSubtype r (.container c e v) (.container g k x) = true := by
  refine container_isSubtype (Registry.conforms_trans hcd hdg)
    (ih e f k hn ha.element hb.element hc.element hef hfk) (fun hx => ?_)
  have hw := invariant_of_conforms hr hb hc hdg hx
  exact ih k f e (by omega) hc.element hb.element ha.element (hkf hx) (hfe hw)

/-- Pointwise relations compose where their members do. -/
theorem forall₂_comp {α : Type} {R : α → α → Prop} {xs ys zs : List α} (hxy : List.Forall₂ R xs ys)
    (hyz : List.Forall₂ R ys zs)
    (h : ∀ x ∈ xs, ∀ y ∈ ys, ∀ z ∈ zs, R x y → R y z → R x z) : List.Forall₂ R xs zs := by
  induction hxy generalizing zs with
  | nil => cases hyz; exact .nil
  | cons hx _ ih =>
    cases hyz with
    | cons hy hys =>
      refine .cons (h _ (by simp) _ (by simp) _ (by simp) hx hy) (ih hys ?_)
      intro x hx y hy z hz
      exact h x (by simp [hx]) y (by simp [hy]) z (by simp [hz])

theorem trans_callable {n : Nat} (ih : TransitiveBelow r n) {ps qs us : List Ty} {t u v : Ty}
    (hn : sizeList ps + size t + (sizeList qs + size u) + (sizeList us + size v) < n)
    (ha : Consistent r (.callable ps t)) (hb : Consistent r (.callable qs u)) (hc : Consistent r (.callable us v))
    (hqp : List.Forall₂ (fun q p => isSubtype r q p = true) qs ps)
    (huq : List.Forall₂ (fun q p => isSubtype r q p = true) us qs)
    (htu : isSubtype r t u = true) (huv : isSubtype r u v = true) :
    isSubtype r (.callable ps t) (.callable us v) = true := by
  refine callable_isSubtype (forall₂_comp huq hqp ?_) (ih t u v (by omega) ha.ret hb.ret hc.ret htu huv)
  intro x hx y hy z hz hxy hyz
  have hx' := size_lt_of_mem hx
  have hy' := size_lt_of_mem hy
  have hz' := size_lt_of_mem hz
  exact ih x y z (by omega) (hc.param hx) (hb.param hy) (ha.param hz) hxy hyz

theorem transitiveBelow_succ {n : Nat} (ih : TransitiveBelow r n) (hr : ¬ r.CovariantBelowInvariant) :
    TransitiveBelow r (n + 1) := by
  intro a b c hn ha hb hc hab hbc
  -- a member of the largest type is reached by induction, whatever rule puts `a` below `b`
  have member : ∀ {ts t}, c = .union ts → t ∈ ts → isSubtype r b t = true → isSubtype r a c = true := by
    rintro ts t rfl ht hbt
    have hlt := size_lt_of_mem ht
    simp only [size] at hn
    exact isSubtype_union ht (ih a b t (by omega) ha hb (hc.member ht) hab hbt)
  cases byRule_of_isSubtype hab with
  | same => exact hbc
  | never => exact never_isSubtype r c
  | literal v =>
    cases byRule_of_isSubtype hbc with
    | same => exact hab
    | member ht hbt => exact member rfl ht hbt
  | union h =>
    apply union_isSubtype
    intro t ht
    have hlt := size_lt_of_mem ht
    simp only [size] at hn
    exact ih t b c (by omega) (ha.member ht) hb hc (h t ht) hbc
  | member hu hau =>
    have hlt := size_lt_of_mem hu
    simp only [size] at hn
    exact ih a _ c (by omega) ha (hb.member hu) hc hau (union_isSubtype_iff.1 hbc _ hu)
  | container hcd hef hfe =>
    cases byRule_of_isSubtype hbc with
    | same => exact hab
    | member ht hbt => exact member rfl ht hbt
    | container hdg hfk hkf =>
      simp only [size] at hn
      exact trans_container ih hr (by omega) ha hb hc hcd hdg hef hfk hfe hkf
  | callable hqp htu =>
    cases byRule_of_isSubtype hbc with
    | same => exact hab
    | member ht hbt => exact member rfl ht hbt
    | callable huq huv =>
      simp only [size] at hn
      exact trans_callable ih (by omega) ha hb hc hqp huq htu huv

theorem trans_of_orderly (hr : ¬ r.CovariantBelowInvariant) : Transitive r := by
  have h : ∀ n, TransitiveBelow r n := by
    intro n
    induction n with
    | zero => intro a b c hn; exact absurd hn (by omega)
    | succ n ih => exact transitiveBelow_succ ih hr
  intro a b c
  exact h _ a b c (Nat.lt_succ_self _)

/-! ## A covariant constructor below an invariant one -/

/-- `C[Never] <: C[int] <: D[int]`, all three known to the registry, and yet not `C[Never] <: D[int]`. -/
structure Breaks (r : Registry) (c d : String) : Prop where
  first : Consistent r (.container c .never .covariant)
  second : Consistent r (.container c int .covariant)
  third : Consistent r (.container d int .invariant)
  below : isSubtype r (.container c .never .covariant) (.container c int .covariant) = true
  above : isSubtype r (.container c int .covariant) (.container d int .invariant) = true
  apart : isSubtype r (.container c .never .covariant) (.container d int .invariant) = false

theorem breaks_of_conforms {c d : String} {cs ds : ContainerSpec} (hc : r.resolve? c = some (c, cs))
    (hd : r.resolve? d = some (d, ds)) (hv : cs.variance = .covariant) (hw : ds.variance = .invariant)
    (hcd : r.conforms c d = true) : Breaks r c d where
  first := hv ▸ .container hc .never
  second := hv ▸ .container hc (.primitive _)
  third := hw ▸ .container hd (.primitive _)
  below := container_isSubtype (Registry.conforms_self r c) (never_isSubtype r int) (by rintro ⟨⟩)
  above := container_isSubtype hcd (isSubtype_refl r int) (fun _ => isSubtype_refl r int)
  apart := by
    apply Bool.eq_false_iff.2
    intro h
    cases byRule_of_isSubtype h with
    | container _ _ hi => cases byRule_of_isSubtype (hi rfl)

theorem exists_breaks (h : r.CovariantBelowInvariant) : ∃ c d, Breaks r c d := by
  obtain ⟨c, d, cs, ds, hc, hd, hv, hw, hcd⟩ := h
  exact ⟨c, d, breaks_of_conforms hc hd hv hw hcd⟩

theorem not_transitive_of_breaks {c d : String} (h : Breaks r c d) : ¬ Transitive r := by
  intro ht
  have hac := ht _ _ _ h.first h.second h.third h.below h.above
  rw [h.apart] at hac
  cases hac

theorem transitive_iff_orderly : Transitive r ↔ ¬ r.CovariantBelowInvariant := by
  refine ⟨?_, trans_of_orderly⟩
  intro ht hr
  obtain ⟨c, d, h⟩ := exists_breaks hr
  exact not_transitive_of_breaks h ht

end Ty

/-! ## Two registries -/

namespace Registry

/-- No built-in constructor has an invariant base. -/
theorem builtin_bases_covariant {x d : String} {ds : ContainerSpec} (h : d ∈ builtin.basesOf x)
    (hd : builtin.resolve? d = some (d, ds)) : ds.variance = .covariant := by
  have all : ∀ e ∈ builtin.containers.entries, ∀ b ∈ e.2.bases, ∀ t ∈ builtin.target? b,
      ∀ u ∈ builtin.resolve? t, u.2.variance = .covariant := by decide
  obtain ⟨c, spec, hx, b, hb, ht⟩ := mem_basesOf_iff.1 h
  exact all _ (resolve?_mem hx) b hb d ht _ hd

theorem builtin_orderly : ¬ builtin.CovariantBelowInvariant := by
  rintro ⟨c, d, cs, ds, hc, hd, hv, hw, h⟩
  have hl := (conforms_iff_leads (target?_eq_some_iff.2 ⟨cs, hc⟩) (target?_eq_some_iff.2 ⟨ds, hd⟩)).1 h
  rcases Relation.ReflTransGen.cases_tail hl with rfl | ⟨x, -, hx⟩
  · rw [hc] at hd
    cases hd
    rw [hv] at hw
    cases hw
  · rw [builtin_bases_covariant hx hd] at hw
    cases hw

/-- A covariant `View` whose base is an invariant `Cell`. -/
def viewOfCell : Registry where
  containers := .ofList [("View", ⟨.covariant, ["Cell"]⟩), ("Cell", ⟨.invariant, []⟩)]
  aliases := .empty
  listDisplay := "Cell"

theorem viewOfCell_breaks : Ty.Breaks viewOfCell "View" "Cell" := by
  have hv : viewOfCell.resolve? "View" = some ("View", ⟨.covariant, ["Cell"]⟩) := by decide
  have hc : viewOfCell.resolve? "Cell" = some ("Cell", ⟨.invariant, []⟩) := by decide
  have hb : "Cell" ∈ viewOfCell.basesOf "View" := by decide
  refine Ty.breaks_of_conforms hv hc rfl rfl ?_
  exact (conforms_iff_leads (target?_eq_some_iff.2 ⟨_, hv⟩) (target?_eq_some_iff.2 ⟨_, hc⟩)).2 (.single hb)

end Registry

namespace Ty

/-- Subtyping of the types that a registry knows is transitive exactly when no covariant constructor conforms
to an invariant one. That is so for the built-in registry. Where one does, three types show the failure; and a valid
registry may be like that: `View[int]` then stands between `View[Never]` and `Cell[int]`. -/
theorem transitive_iff :
    (∀ r, Transitive r ↔ ¬ r.CovariantBelowInvariant) ∧ Transitive .builtin ∧
      (∀ r : Registry, r.CovariantBelowInvariant → ∃ c d, Breaks r c d) ∧
      Registry.viewOfCell.validate = .ok () ∧ Breaks .viewOfCell "View" "Cell" := by
  refine ⟨fun r => transitive_iff_orderly, trans_of_orderly Registry.builtin_orderly, fun r => exists_breaks, ?_,
    Registry.viewOfCell_breaks⟩
  decide

end Ty

end AnnotationChecker
