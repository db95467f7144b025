import AnnotationChecker.Proofs.Ty.Subtyping
/-!
# Parts of types, and types of a registry

The parts of a type are the type itself and the parts of what it is built from. A type is consistent with
a registry when each container among its parts is declared there, under its own name and with its own
variance.
-/

namespace AnnotationChecker.Ty

/-- Induction on a type, with the claim for every member and every parameter. -/
@[elab_as_elim]
theorem inductionOn {P : Ty → Prop} (t : Ty) (primitive : ∀ k, P (.primitive k)) (literal : ∀ v, P (.literal v))
    (union : ∀ ts, (∀ t ∈ ts, P t) → P (.union ts)) (container : ∀ c e v, P e → P (.container c e v))
    (callable : ∀ ps t, (∀ p ∈ ps, P p) → P t → P (.callable ps t)) (never : P .never) : P t := by
  induction hn : size t using Nat.strongRecOn generalizing t with
  | _ n ih =>
    cases t with
    | primitive k => exact primitive k
    | literal v => exact literal v
    | never => exact never
    | union ts =>
      refine union ts (fun t ht => ih _ ?_ t rfl)
      have := size_lt_of_mem ht
      simp only [size] at hn
      omega
    | container c e v =>
      refine container c e v (ih _ ?_ e rfl)
      simp only [size] at hn
      omega
    | callable ps t =>
      simp only [size] at hn
      refine callable ps t (fun p hp => ih _ ?_ p rfl) (ih _ (by omega) t rfl)
      have := size_lt_of_mem hp
      omega

mutual

/-- The types that a type is built from at any depth, and the type itself. -/
def parts : Ty → List Ty
  | .union ts => .union ts :: partsList ts
  | .container c e v => .container c e v :: parts e
  | .callable ps t => .callable ps t :: (partsList ps ++ parts t)
  | t => [t]

/-- The parts of all types of a list. -/
def partsList : List Ty → List Ty
  | [] => []
  | t :: ts => parts t ++ partsList ts

end

theorem mem_partsList {p : Ty} {ts : List Ty} : p ∈ partsList ts ↔ ∃ t ∈ ts, p ∈ parts t := by
  induction ts with
  | nil => simp [partsList]
  | cons t ts ih => simp [partsList, ih]

theorem self_mem_parts (t : Ty) : t ∈ parts t := by
  cases t <;> simp [parts]

section

variable {p t e : Ty} {ts ps : List Ty}

theorem mem_parts_of_member (ht : t ∈ ts) (h : p ∈ parts t) : p ∈ parts (.union ts) :=
  List.mem_cons_of_mem _ (mem_partsList.2 ⟨t, ht, h⟩)

theorem mem_parts_of_element {c : String} {v : Variance} (h : p ∈ parts e) : p ∈ parts (.container c e v) :=
  List.mem_cons_of_mem _ h

theorem mem_parts_of_param (ht : t ∈ ps) (h : p ∈ parts t) : p ∈ parts (.callable ps e) :=
  List.mem_cons_of_mem _ (List.mem_append_left _ (mem_partsList.2 ⟨t, ht, h⟩))

theorem mem_parts_of_ret (h : p ∈ parts e) : p ∈ parts (.callable ps e) :=
  List.mem_cons_of_mem _ (List.mem_append_right _ h)

end

/-! ## Types without an empty union -/

/-- No union in a type is empty. -/
def Proper (t : Ty) : Prop := .union [] ∉ t.parts

namespace Proper

theorem ne_nil {ts : List Ty} (h : Proper (.union ts)) : ts ≠ [] := by
  rintro rfl
  exact h (self_mem_parts _)

theorem member {t : Ty} {ts : List Ty} (h : Proper (.union ts)) (ht : t ∈ ts) : Proper t :=
  fun hu => h (mem_parts_of_member ht hu)

theorem element {c : String} {e : Ty} {v : Variance} (h : Proper (.container c e v)) : Proper e :=
  fun hu => h (mem_parts_of_element hu)

theorem param {p t : Ty} {ps : List Ty} (h : Proper (.callable ps t)) (hp : p ∈ ps) : Proper p :=
  fun hu => h (mem_parts_of_param hp hu)

theorem ret {ps : List Ty} {t : Ty} (h : Proper (.callable ps t)) : Proper t :=
  fun hu => h (mem_parts_of_ret hu)

end Proper

/-! ## Types of a registry -/

/-- Every container of a type is declared in the registry, and has the variance that is declared. -/
def Consistent (r : Registry) (t : Ty) : Prop :=
  ∀ c e v, .container c e v ∈ t.parts → ∃ spec, r.resolve? c = some (c, spec) ∧ v = spec.variance

namespace Consistent

variable {r : Registry}

theorem primitive (k : Primitive) : Consistent r (.primitive k) := by
  intro c e v h; simp [parts] at h

theorem literal (v : Literal) : Consistent r (.literal v) := by
  intro c e w h; simp [parts] at h

theorem never : Consistent r .never := by
  intro c e v h; simp [parts] at h

theorem ctor {c : String} {e : Ty} {v : Variance} (h : Consistent r (.container c e v)) :
    ∃ spec, r.resolve? c = some (c, spec) ∧ v = spec.variance :=
  h c e v (self_mem_parts _)

theorem element {c : String} {e : Ty} {v : Variance} (h : Consistent r (.container c e v)) : Consistent r e :=
  fun d f w hf => h d f w (mem_parts_of_element hf)

theorem container {c : String} {e : Ty} {spec : ContainerSpec} (hc : r.resolve? c = some (c, spec))
    (he : Consistent r e) : Consistent r (.container c e spec.variance) := by
  intro d f w hf
  simp only [parts, List.mem_cons, Ty.container.injEq] at hf
  rcases hf with ⟨rfl, -, rfl⟩ | hf
  · exact ⟨spec, hc, rfl⟩
  · exact he d f w hf

theorem member {t : Ty} {ts : List Ty} (h : Consistent r (.union ts)) (ht : t ∈ ts) : Consistent r t :=
  fun c e v he => h c e v (mem_parts_of_member ht he)

theorem param {p t : Ty} {ps : List Ty} (h : Consistent r (.callable ps t)) (hp : p ∈ ps) : Consistent r p :=
  fun c e v he => h c e v (mem_parts_of_param hp he)

theorem ret {ps : List Ty} {t : Ty} (h : Consistent r (.callable ps t)) : Consistent r t :=
  fun c e v he => h c e v (mem_parts_of_ret he)

end Consistent

end AnnotationChecker.Ty
