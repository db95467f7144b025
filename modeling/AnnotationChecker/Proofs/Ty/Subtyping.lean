import Mathlib.Data.List.Forall2
import AnnotationChecker.Ty.Subtyping
/-!
# The rules of subtyping

`Ty.isSubtype` tries its rules in order. `isSubtype_iff` says that the order does not matter: a type is a
subtype of another one exactly when some rule, read by itself, says so. Proofs about subtyping are case
analyses over `ByRule` and do not open the decision procedure again.
-/

namespace AnnotationChecker.Ty

variable {r : Registry}

/-! ## Lists of types -/

theorem allSubtypes_iff {as : List Ty} {b : Ty} :
    allSubtypes r as b = true ↔ ∀ a ∈ as, isSubtype r a b = true := by
  induction as with
  | nil => simp [allSubtypes]
  | cons a as ih => simp [allSubtypes, ih]

theorem anySupertype_iff {a : Ty} {bs : List Ty} :
    anySupertype r a bs = true ↔ ∃ b ∈ bs, isSubtype r a b = true := by
  induction bs with
  | nil => simp [anySupertype]
  | cons b bs ih => simp [anySupertype, ih]

theorem pairwiseSubtypes_iff {as bs : List Ty} :
    pairwiseSubtypes r as bs = true ↔ List.Forall₂ (fun a b => isSubtype r a b = true) as bs := by
  induction as generalizing bs with
  | nil => cases bs <;> simp [pairwiseSubtypes]
  | cons a as ih => cases bs <;> simp [pairwiseSubtypes, ih]

/-! ## Sizes -/

theorem size_lt_of_mem {t : Ty} {ts : List Ty} (h : t ∈ ts) : size t < sizeList ts := by
  induction ts with
  | nil => cases h
  | cons u ts ih =>
    simp only [sizeList]
    rcases List.mem_cons.1 h with rfl | h
    · omega
    · have := ih h; omega

/-! ## One rule at a time -/

theorem isSubtype_refl (r : Registry) (a : Ty) : isSubtype r a a = true := by
  rw [isSubtype.eq_def]; simp

theorem never_isSubtype (r : Registry) (b : Ty) : isSubtype r .never b = true := by
  rw [isSubtype.eq_def]; simp

theorem literal_isSubtype (r : Registry) (v : Literal) : isSubtype r (.literal v) (.primitive v.kind) = true := by
  rw [isSubtype.eq_def]; simp

theorem union_isSubtype {ts : List Ty} {b : Ty} (h : ∀ t ∈ ts, isSubtype r t b = true) :
    isSubtype r (.union ts) b = true := by
  rw [isSubtype.eq_def]
  simp [allSubtypes_iff.2 h]

/-- What is below a member is below the union, also when it is a union itself. -/
theorem isSubtype_union {a t : Ty} {ts : List Ty} (ht : t ∈ ts) (h : isSubtype r a t = true) :
    isSubtype r a (.union ts) = true := by
  induction hn : size a using Nat.strongRecOn generalizing a t ts with
  | _ n ih =>
    rw [isSubtype.eq_def] at h ⊢
    split
    · rfl
    · next hne =>
      cases a with
      | union as =>
        apply allSubtypes_iff.2
        intro a ha
        have hlt : size a < n := by
          have := size_lt_of_mem ha
          simp only [size] at hn
          omega
        split at h
        · next he =>
          -- the union is the member itself, and its own members are below it
          rcases he with rfl | he
          · exact ih _ hlt ht (ih _ hlt ha (isSubtype_refl r a) rfl) rfl
          · cases he
        · exact ih _ hlt ht (allSubtypes_iff.1 h a ha) rfl
      | never => simp at hne
      | _ => exact anySupertype_iff.2 ⟨t, ht, by rw [isSubtype.eq_def]; exact h⟩

theorem container_isSubtype {c d : String} {e f : Ty} {v w : Variance} (hc : r.conforms c d = true)
    (h : isSubtype r e f = true) (hw : w = .invariant → isSubtype r f e = true) :
    isSubtype r (.container c e v) (.container d f w) = true := by
  rw [isSubtype.eq_def]
  cases w <;> simp_all

theorem callable_isSubtype {ps qs : List Ty} {t u : Ty}
    (hp : List.Forall₂ (fun q p => isSubtype r q p = true) qs ps) (h : isSubtype r t u = true) :
    isSubtype r (.callable ps t) (.callable qs u) = true := by
  rw [isSubtype.eq_def]
  simp [pairwiseSubtypes_iff.2 hp, h]

/-- A rule, with subtyping in its premises. -/
inductive ByRule (r : Registry) : Ty → Ty → Prop where
  | same (a : Ty) : ByRule r a a
  | never (b : Ty) : ByRule r .never b
  | literal (v : Literal) : ByRule r (.literal v) (.primitive v.kind)
  | union {ts : List Ty} {b : Ty} : (∀ t ∈ ts, isSubtype r t b = true) → ByRule r (.union ts) b
  | member {a t : Ty} {ts : List Ty} : t ∈ ts → isSubtype r a t = true → ByRule r a (.union ts)
  | container {c d : String} {e f : Ty} {v w : Variance} : r.conforms c d = true → isSubtype r e f = true →
      (w = .invariant → isSubtype r f e = true) → ByRule r (.container c e v) (.container d f w)
  | callable {ps qs : List Ty} {t u : Ty} : List.Forall₂ (fun q p => isSubtype r q p = true) qs ps →
      isSubtype r t u = true → ByRule r (.callable ps t) (.callable qs u)

theorem byRule_of_isSubtype {a b : Ty} (h : isSubtype r a b = true) : ByRule r a b := by
  rw [isSubtype.eq_def] at h
  split at h
  · next he =>
    rcases he with rfl | rfl
    · exact .same a
    · exact .never b
  · split at h
    · exact .union (allSubtypes_iff.1 h)
    · obtain ⟨t, ht, h⟩ := anySupertype_iff.1 h
      exact .member ht h
    · simp only [decide_eq_true_eq] at h
      exact h ▸ .literal _
    · simp only [Bool.and_eq_true] at h
      refine .container h.1.1 h.1.2 ?_
      rintro rfl
      exact h.2
    · simp only [Bool.and_eq_true] at h
      exact .callable (pairwiseSubtypes_iff.1 h.1) h.2
    · cases h

theorem isSubtype_iff {a b : Ty} : isSubtype r a b = true ↔ ByRule r a b := by
  refine ⟨byRule_of_isSubtype, fun h => ?_⟩
  cases h with
  | same => exact isSubtype_refl r a
  | never => exact never_isSubtype r b
  | literal v => exact literal_isSubtype r v
  | union h => exact union_isSubtype h
  | member ht h => exact isSubtype_union ht h
  | container hc h hw => exact container_isSubtype hc h hw
  | callable hp h => exact callable_isSubtype hp h

/-! ## Unions -/

theorem union_isSubtype_iff {ts : List Ty} {b : Ty} :
    isSubtype r (.union ts) b = true ↔ ∀ t ∈ ts, isSubtype r t b = true := by
  refine ⟨fun h t ht => ?_, union_isSubtype⟩
  induction hn : size b using Nat.strongRecOn generalizing b with
  | _ n ih =>
    cases byRule_of_isSubtype h with
    | same => exact isSubtype_union ht (isSubtype_refl r t)
    | union h => exact h t ht
    | member hu hm =>
      have hlt := size_lt_of_mem hu
      simp only [size] at hn
      exact isSubtype_union hu (ih _ (by omega) hm rfl)

/-- A type that is no union is below a union only through one of the members. -/
theorem isSubtype_union_iff {a : Ty} {ts : List Ty} (hu : a.isUnion = false) (hn : a ≠ .never) :
    isSubtype r a (.union ts) = true ↔ ∃ t ∈ ts, isSubtype r a t = true := by
  constructor
  · intro h
    cases byRule_of_isSubtype h with
    | same => cases hu
    | never => exact absurd rfl hn
    | union => cases hu
    | member ht h => exact ⟨_, ht, h⟩
  · rintro ⟨t, ht, h⟩
    exact isSubtype_union ht h

end AnnotationChecker.Ty
