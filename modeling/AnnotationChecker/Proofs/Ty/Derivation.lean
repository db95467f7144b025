import AnnotationChecker.Proofs.Ty.Subtyping
/-!
# Subtyping as a system of rules

The rules of subtyping without an order: a type is below another one when some finite derivation ends in that
(`Derivable`). The decision procedure tries the rules in order and commits to the first one that fits, and loses no
derivation by that (`isSubtype_iff_derivable`).
-/

namespace AnnotationChecker.Ty

/-- What can be derived with the rules, each of them wherever it applies. -/
inductive Derivable (r : Registry) : Ty → Ty → Prop
  | same (a : Ty) : Derivable r a a
  | never (b : Ty) : Derivable r .never b
  | literal (v : Literal) : Derivable r (.literal v) (.primitive v.kind)
  | union {ts : List Ty} {b : Ty} : (∀ t ∈ ts, Derivable r t b) → Derivable r (.union ts) b
  | member {a t : Ty} {ts : List Ty} : t ∈ ts → Derivable r a t → Derivable r a (.union ts)
  | covariant {c d : String} {e f : Ty} {v : Variance} : r.conforms c d = true → Derivable r e f →
      Derivable r (.container c e v) (.container d f .covariant)
  | invariant {c d : String} {e f : Ty} {v : Variance} : r.conforms c d = true → Derivable r e f → Derivable r f e →
      Derivable r (.container c e v) (.container d f .invariant)
  | callable {ps qs : List Ty} {t u : Ty} : qs.length = ps.length → (∀ q p, (q, p) ∈ qs.zip ps → Derivable r q p) →
      Derivable r t u → Derivable r (.callable ps t) (.callable qs u)

variable {r : Registry} {a b : Ty}

theorem Derivable.isSubtype (h : Derivable r a b) : isSubtype r a b = true := by
  induction h with
  | same a => exact isSubtype_refl r a
  | never b => exact never_isSubtype r b
  | literal v => exact literal_isSubtype r v
  | union _ ih => exact union_isSubtype ih
  | member ht _ ih => exact isSubtype_union ht ih
  | covariant hc _ ih => exact container_isSubtype hc ih (by rintro ⟨⟩)
  | invariant hc _ _ ihef ihfe => exact container_isSubtype hc ihef fun _ => ihfe
  | callable hlen _ _ ihp ih =>
    exact callable_isSubtype (List.forall₂_iff_zip.2 ⟨hlen, fun h => ihp _ _ h⟩) ih

/-- All types of fewer than `n` constructors in total that are below each other are derivably so. -/
def DerivableBelow (r : Registry) (n : Nat) : Prop :=
  ∀ a b : Ty, size a + size b < n → isSubtype r a b = true → Derivable r a b

theorem derivableBelow_succ {n : Nat} (ih : DerivableBelow r n) : DerivableBelow r (n + 1) := by
  intro a b hn h
  -- the rule that holds of the two types has smaller types in its premises
  cases byRule_of_isSubtype h with
  | same => exact .same a
  | never => exact .never b
  | literal v => exact .literal v
  | union hall =>
    refine .union fun t ht => ?_
    have hlt := size_lt_of_mem ht
    simp only [size] at hn
    exact ih t b (by omega) (hall t ht)
  | member ht hat =>
    have hlt := size_lt_of_mem ht
    simp only [size] at hn
    exact .member ht (ih a _ (by omega) hat)
  | @container c d e f v w hc hef hfe =>
    simp only [size] at hn
    have he := ih e f (by omega) hef
    cases w with
    | covariant => exact .covariant hc he
    | invariant => exact .invariant hc he (ih f e (by omega) (hfe rfl))
  | @callable ps qs t u hps htu =>
    simp only [size] at hn
    obtain ⟨hlen, hzip⟩ := List.forall₂_iff_zip.1 hps
    refine .callable hlen (fun q p hqp => ?_) (ih t u (by omega) htu)
    have hq := size_lt_of_mem (List.of_mem_zip hqp).1
    have hp := size_lt_of_mem (List.of_mem_zip hqp).2
    exact ih q p (by omega) (hzip hqp)

theorem derivable_of_isSubtype (h : isSubtype r a b = true) : Derivable r a b := by
  have hall : ∀ n, DerivableBelow r n := by
    intro n
    induction n with
    | zero => intro a b hn; exact absurd hn (Nat.not_lt_zero _)
    | succ n ih => exact derivableBelow_succ ih
  exact hall _ a b (Nat.lt_succ_self _) h

/-- **The first rule that fits decides as all of them do.** A type is decided to be below another one exactly when
that has a derivation, in whatever order the rules are used in it. -/
theorem isSubtype_iff_derivable (r : Registry) (a b : Ty) : isSubtype r a b = true ↔ Derivable r a b :=
  ⟨derivable_of_isSubtype, Derivable.isSubtype⟩

end AnnotationChecker.Ty
