import AnnotationChecker.Proofs.Registry.Conformance
import AnnotationChecker.Proofs.Ty.Canonical
/-!
# Normalizing and subtyping

Subtyping looks through unions: a type is below another one when each of its members is, and a type that is no
union is below another one when it is below some member (`isSubtype_iff_members`, `IsMember.isSubtype_iff_members`).
So joining types is taking their union, and normalizing a type, which joins at every depth, changes nothing that
subtyping sees (`isSubtype_normalized`, `normalized_invisible`).
-/

namespace AnnotationChecker.Ty

variable {r : Registry} {a b : Ty}

/-! ## Subtyping through unions -/

theorem isMember_iff {t : Ty} : t.IsMember ↔ t.isUnion = false ∧ t ≠ .never := by
  cases t with
  | union ts => simp [not_isMember_union, isUnion]
  | never => simp [not_isMember_never]
  | _ => simp [IsMember, members, isUnion]

/-- A type is below another one when its members are. -/
theorem isSubtype_iff_members : isSubtype r a b = true ↔ ∀ u ∈ a.members, isSubtype r u b = true := by
  cases a with
  | union ts => exact union_isSubtype_iff
  | never => simp [members, never_isSubtype]
  | _ => simp [members]

theorem ofMembers_isSubtype_iff {ts : List Ty} :
    isSubtype r (ofMembers ts) b = true ↔ ∀ t ∈ ts, isSubtype r t b = true := by
  match ts with
  | [] => simp [ofMembers, never_isSubtype]
  | [t] => simp [ofMembers]
  | _ :: _ :: _ => exact union_isSubtype_iff

/-- What joined types are below is what each of them is below. -/
theorem join_isSubtype_iff {ts : List Ty} : isSubtype r (join ts) b = true ↔ ∀ t ∈ ts, isSubtype r t b = true := by
  rw [join, ofMembers_isSubtype_iff]
  constructor
  · intro h t ht
    exact isSubtype_iff_members.2 fun u hu => h u (mem_distinct.2 (List.mem_flatMap.2 ⟨t, ht, hu⟩))
  · intro h u hu
    obtain ⟨t, ht, hu⟩ := List.mem_flatMap.1 (mem_distinct.1 hu)
    exact isSubtype_iff_members.1 (h t ht) u hu

namespace IsMember

/-- Only `Never` and unions of nothing else are below `Never`. -/
theorem not_isSubtype_never (ha : a.IsMember) : ¬ isSubtype r a .never = true := by
  intro h
  obtain ⟨hu, hn⟩ := isMember_iff.1 ha
  cases byRule_of_isSubtype h with
  | same => exact hn rfl
  | never => exact hn rfl
  | union => cases hu

/-- A type that is no union is below another one when it is below a member of it. -/
theorem isSubtype_iff_members (ha : a.IsMember) :
    isSubtype r a b = true ↔ ∃ u ∈ b.members, isSubtype r a u = true := by
  cases b with
  | union ts => exact isSubtype_union_iff (isMember_iff.1 ha).1 (isMember_iff.1 ha).2
  | never => simp [members, ha.not_isSubtype_never]
  | _ => simp [members]

theorem isSubtype_ofMembers_iff (ha : a.IsMember) {ts : List Ty} :
    isSubtype r a (ofMembers ts) = true ↔ ∃ t ∈ ts, isSubtype r a t = true := by
  match ts with
  | [] => simp [ofMembers, ha.not_isSubtype_never]
  | [t] => simp [ofMembers]
  | _ :: _ :: _ => exact isSubtype_union_iff (isMember_iff.1 ha).1 (isMember_iff.1 ha).2

/-- A type that is no union is below joined types when it is below one of them. -/
theorem isSubtype_join_iff (ha : a.IsMember) {ts : List Ty} :
    isSubtype r a (join ts) = true ↔ ∃ t ∈ ts, isSubtype r a t = true := by
  rw [join, ha.isSubtype_ofMembers_iff]
  constructor
  · rintro ⟨u, hu, h⟩
    obtain ⟨t, ht, hu⟩ := List.mem_flatMap.1 (mem_distinct.1 hu)
    exact ⟨t, ht, ha.isSubtype_iff_members.2 ⟨u, hu, h⟩⟩
  · rintro ⟨t, ht, h⟩
    obtain ⟨u, hu, h⟩ := ha.isSubtype_iff_members.1 h
    exact ⟨u, mem_distinct.2 (List.mem_flatMap.2 ⟨t, ht, hu⟩), h⟩

end IsMember

/-! ## Subtyping of containers and callables

Equal types follow the rule for their constructor too, so that the rule alone decides. -/

theorem container_isSubtype_iff {c d : String} {e f : Ty} {v w : Variance} :
    isSubtype r (.container c e v) (.container d f w) = true ↔
      r.conforms c d = true ∧ isSubtype r e f = true ∧ (w = .invariant → isSubtype r f e = true) := by
  constructor
  · intro h
    cases byRule_of_isSubtype h with
    | same => exact ⟨Registry.conforms_self r c, isSubtype_refl r e, fun _ => isSubtype_refl r e⟩
    | container hc hs hw => exact ⟨hc, hs, hw⟩
  · rintro ⟨hc, hs, hw⟩
    exact container_isSubtype hc hs hw

theorem callable_isSubtype_iff {ps qs : List Ty} {t u : Ty} :
    isSubtype r (.callable ps t) (.callable qs u) = true ↔
      List.Forall₂ (fun q p => isSubtype r q p = true) qs ps ∧ isSubtype r t u = true := by
  constructor
  · intro h
    cases byRule_of_isSubtype h with
    | same => exact ⟨List.forall₂_same.2 fun p _ => isSubtype_refl r p, isSubtype_refl r t⟩
    | callable hp hs => exact ⟨hp, hs⟩
  · rintro ⟨hp, hs⟩
    exact callable_isSubtype hp hs

/-! ## Normal forms -/

/-- The types of two lists are below each other pair by pair before a change when they are after it. -/
theorem forall₂_isSubtype_map_iff {f : Ty → Ty} {qs ps : List Ty}
    (h : ∀ q ∈ qs, ∀ p ∈ ps, isSubtype r (f q) (f p) = isSubtype r q p) :
    List.Forall₂ (fun q p => isSubtype r q p = true) (qs.map f) (ps.map f) ↔
      List.Forall₂ (fun q p => isSubtype r q p = true) qs ps := by
  induction qs generalizing ps with
  | nil => cases ps <;> simp
  | cons q qs ih =>
    cases ps with
    | nil => simp
    | cons p ps =>
      rw [List.map_cons, List.map_cons, List.forall₂_cons, List.forall₂_cons, h q (by simp) p (by simp)]
      rw [ih fun q hq p hp => h q (List.mem_cons_of_mem _ hq) p (List.mem_cons_of_mem _ hp)]

/-- Normal forms compare as the types do, for all types of fewer than `n` constructors in total. -/
def NormalizedBelow (r : Registry) (n : Nat) : Prop :=
  ∀ a b : Ty, size a + size b < n → isSubtype r a.normalized b.normalized = isSubtype r a b

theorem isSubtype_normalized_container {n : Nat} (ih : NormalizedBelow r n) {c d : String} {e f : Ty} {v w : Variance}
    (hn : size e + size f < n) :
    isSubtype r (normalized (.container c e v)) (normalized (.container d f w)) =
      isSubtype r (.container c e v) (.container d f w) := by
  rw [Bool.eq_iff_iff, normalized, normalized, container_isSubtype_iff, container_isSubtype_iff, ih e f hn,
    ih f e (by omega)]

theorem isSubtype_normalized_callable {n : Nat} (ih : NormalizedBelow r n) {ps qs : List Ty} {t u : Ty}
    (hn : sizeList ps + size t + (sizeList qs + size u) < n) :
    isSubtype r (normalized (.callable ps t)) (normalized (.callable qs u)) =
      isSubtype r (.callable ps t) (.callable qs u) := by
  have hparams : ∀ q ∈ qs, ∀ p ∈ ps, isSubtype r q.normalized p.normalized = isSubtype r q p := by
    intro q hq p hp
    have hq' := size_lt_of_mem hq
    have hp' := size_lt_of_mem hp
    exact ih q p (by omega)
  rw [Bool.eq_iff_iff, normalized, normalized, normalizedList_eq_map, normalizedList_eq_map, callable_isSubtype_iff,
    callable_isSubtype_iff, forall₂_isSubtype_map_iff hparams, ih t u (by omega)]

/-- Two types that are no unions are compared by the rule for their constructors. -/
theorem isSubtype_normalized_members {n : Nat} (ih : NormalizedBelow r n) (hn : size a + size b < n + 1) (ha : a.IsMember)
    (hb : b.IsMember) : isSubtype r a.normalized b.normalized = isSubtype r a b := by
  cases a with
  | union ts => exact absurd ha (not_isMember_union ts)
  | never => exact absurd ha not_isMember_never
  | container c e v =>
    cases b with
    | union ts => exact absurd hb (not_isMember_union ts)
    | container d f w =>
      simp only [size] at hn
      exact isSubtype_normalized_container ih (by omega)
    | _ => simp [isSubtype, normalized]
  | callable ps t =>
    cases b with
    | union ts => exact absurd hb (not_isMember_union ts)
    | callable qs u =>
      simp only [size] at hn
      exact isSubtype_normalized_callable ih (by omega)
    | _ => simp [isSubtype, normalized]
  | _ =>
    cases b with
    | union ts => exact absurd hb (not_isMember_union ts)
    | container d f w => simp [isSubtype, normalized]
    | callable qs u => simp [isSubtype, normalized]
    | _ => rfl

theorem normalizedBelow_succ {n : Nat} (ih : NormalizedBelow r n) : NormalizedBelow r (n + 1) := by
  intro a b hn
  rw [Bool.eq_iff_iff]
  by_cases ha : a.IsMember
  · cases b with
    | never => simp only [normalized, ha.normalized.not_isSubtype_never, ha.not_isSubtype_never]
    | union us =>
      rw [normalized, normalizedList_eq_map, ha.normalized.isSubtype_join_iff, ha.isSubtype_iff_members, members]
      simp only [List.mem_map, exists_exists_and_eq_and]
      refine exists_congr fun u => and_congr_right fun hu => ?_
      have hlt := size_lt_of_mem hu
      simp only [size] at hn
      rw [ih a u (by omega)]
    | _ => rw [isSubtype_normalized_members ih hn ha rfl]
  · cases a with
    | never => simp only [normalized, never_isSubtype]
    | union ts =>
      rw [normalized, normalizedList_eq_map, join_isSubtype_iff, List.forall_mem_map, union_isSubtype_iff]
      refine forall₂_congr fun t ht => ?_
      have hlt := size_lt_of_mem ht
      simp only [size] at hn
      rw [ih t b (by omega)]
    | _ => exact absurd rfl ha

/-- Normal forms are below each other as the types are. -/
theorem isSubtype_normalized (r : Registry) (a b : Ty) :
    isSubtype r a.normalized b.normalized = isSubtype r a b := by
  have h : ∀ n, NormalizedBelow r n := by
    intro n
    induction n with
    | zero => intro a b hn; exact absurd hn (Nat.not_lt_zero _)
    | succ n ih => exact normalizedBelow_succ ih
  exact h _ a b (Nat.lt_succ_self _)

/-- A union of two members at least, none of them a union or `Never`, and all of them different. -/
structure IsCanonicalUnion (ts : List Ty) : Prop where
  two : 2 ≤ ts.length
  member : ∀ t ∈ ts, t.isUnion = false ∧ t ≠ .never
  nodup : ts.Nodup

/-- A type is canonical when every union in it is, at any depth. -/
theorem canonical_iff {t : Ty} : t.Canonical ↔ ∀ ts, .union ts ∈ t.parts → IsCanonicalUnion ts := by
  constructor
  · intro h
    induction h with
    | primitive k | literal v | never => simp [parts]
    | container c v element ih => simpa [parts] using ih
    | callable params ret ihp iht =>
      intro ts hts
      simp only [parts, List.mem_cons, reduceCtorEq, List.mem_append, mem_partsList, false_or] at hts
      rcases hts with ⟨p, hp, hts⟩ | hts
      · exact ihp p hp ts hts
      · exact iht ts hts
    | union two nodup member all ih =>
      intro us hus
      simp only [parts, List.mem_cons, union.injEq, mem_partsList] at hus
      rcases hus with rfl | ⟨t, ht, hus⟩
      · exact ⟨two, fun t ht => isMember_iff.1 (member t ht), nodup⟩
      · exact ih t ht us hus
  · intro h
    induction t using inductionOn with
    | primitive k => exact .primitive k
    | literal v => exact .literal v
    | never => exact .never
    | container c e v ih => exact .container c v (ih fun ts hts => h ts (mem_parts_of_element hts))
    | callable ps t ihp iht =>
      exact .callable (fun p hp => ihp p hp fun ts hts => h ts (mem_parts_of_param hp hts))
        (iht fun ts hts => h ts (mem_parts_of_ret hts))
    | union ts ih =>
      have hts := h ts (self_mem_parts _)
      exact .union hts.two hts.nodup (fun t ht => isMember_iff.2 (hts.member t ht))
        fun t ht => ih t ht fun us hus => h us (mem_parts_of_member ht hus)

/-- Normalizing gives types all of whose unions are canonical, leaves exactly those types as they are, and so does
nothing when done again. No registry tells a type from its normal form. -/
theorem normalized_invisible :
    (∀ t : Ty, (∀ ts, .union ts ∈ t.normalized.parts → IsCanonicalUnion ts) ∧
      (t.normalized = t ↔ ∀ ts, .union ts ∈ t.parts → IsCanonicalUnion ts) ∧
      t.normalized.normalized = t.normalized) ∧
    ∀ r a b, isSubtype r a b = isSubtype r a.normalized b.normalized := by
  refine ⟨fun t => ⟨?_, ?_, ?_⟩, fun r a b => (isSubtype_normalized r a b).symm⟩
  · exact canonical_iff.1 (.normalized t)
  · rw [normalized_eq_iff, canonical_iff]
  · exact (Canonical.normalized t).normalized_eq

end AnnotationChecker.Ty
