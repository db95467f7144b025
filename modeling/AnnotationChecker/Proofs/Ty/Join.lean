import AnnotationChecker.Proofs.Ty.Normalized
/-!
# Unions as joins

Subtyping sees of a union only what it is made of: the types in it that are no unions, however deep unions are
nested around them (`isSubtype_iff_leaves`). So joined types are the least type above each of them, and what is no
union is below them only through one of them. How the members of a union are ordered and grouped, and how often they
occur, never matters, wherever in a type the union stands (`Respelled.alike`).
-/

namespace AnnotationChecker.Ty

variable {r : Registry} {a b t u : Ty} {ts : List Ty}

/-! ## What a type is made of -/

mutual

/-- The types that a union is made of, those of the unions in it among them. Another type is made of itself, and
`Never` of nothing. -/
def leaves : Ty → List Ty
  | .union ts => leavesList ts
  | .never => []
  | t => [t]

/-- What the types of a list are made of. -/
def leavesList : List Ty → List Ty
  | [] => []
  | t :: ts => leaves t ++ leavesList ts

end

theorem mem_leavesList : t ∈ leavesList ts ↔ ∃ m ∈ ts, t ∈ m.leaves := by
  induction ts with
  | nil => simp [leavesList]
  | cons m ts ih => simp [leavesList, ih]

theorem mem_leaves_union : t ∈ (union ts).leaves ↔ ∃ m ∈ ts, t ∈ m.leaves := by
  rw [leaves, mem_leavesList]

theorem isMember_of_mem_leaves (h : t ∈ a.leaves) : t.IsMember := by
  induction a using inductionOn with
  | union ts ih =>
    obtain ⟨m, hm, ht⟩ := mem_leaves_union.1 h
    exact ih m hm ht
  | never => cases h
  | primitive k => cases List.mem_singleton.1 h; rfl
  | literal v => cases List.mem_singleton.1 h; rfl
  | container c e v => cases List.mem_singleton.1 h; rfl
  | callable ps t => cases List.mem_singleton.1 h; rfl

theorem mem_leaves_iff_members : t ∈ a.leaves ↔ ∃ m ∈ a.members, t ∈ m.leaves := by
  cases a with
  | union ts => exact mem_leaves_union
  | _ => simp [members, leaves]

theorem leaves_ofMembers (ts : List Ty) : (ofMembers ts).leaves = leavesList ts := by
  match ts with
  | [] => rfl
  | [t] => simp [ofMembers, leavesList]
  | _ :: _ :: _ => rfl

/-- Joined types are made of what each of them is made of. -/
theorem mem_leaves_join : t ∈ (join ts).leaves ↔ ∃ m ∈ ts, t ∈ m.leaves := by
  rw [join, leaves_ofMembers, mem_leavesList]
  simp only [mem_distinct, List.mem_flatMap]
  constructor
  · rintro ⟨u, ⟨m, hm, hu⟩, ht⟩
    exact ⟨m, hm, mem_leaves_iff_members.2 ⟨u, hu, ht⟩⟩
  · rintro ⟨m, hm, ht⟩
    obtain ⟨u, hu, ht⟩ := mem_leaves_iff_members.1 ht
    exact ⟨u, ⟨m, hm, hu⟩, ht⟩

/-! ## Subtyping of what types are made of -/

theorem isSubtype_iff_forall_leaves : isSubtype r a b = true ↔ ∀ t ∈ a.leaves, isSubtype r t b = true := by
  induction a using inductionOn with
  | union ts ih =>
    rw [union_isSubtype_iff]
    constructor
    · intro h t ht
      obtain ⟨m, hm, ht⟩ := mem_leaves_union.1 ht
      exact (ih m hm).1 (h m hm) t ht
    · intro h m hm
      exact (ih m hm).2 fun t ht => h t (mem_leaves_union.2 ⟨m, hm, ht⟩)
  | never => simp [leaves, never_isSubtype]
  | _ => simp [leaves]

theorem IsMember.isSubtype_iff_exists_leaf (ha : a.IsMember) :
    isSubtype r a b = true ↔ ∃ u ∈ b.leaves, isSubtype r a u = true := by
  induction b using inductionOn with
  | union ts ih =>
    rw [ha.isSubtype_iff_members, members]
    constructor
    · rintro ⟨m, hm, h⟩
      obtain ⟨u, hu, h⟩ := (ih m hm).1 h
      exact ⟨u, mem_leaves_union.2 ⟨m, hm, hu⟩, h⟩
    · rintro ⟨u, hu, h⟩
      obtain ⟨m, hm, hu⟩ := mem_leaves_union.1 hu
      exact ⟨m, hm, (ih m hm).2 ⟨u, hu, h⟩⟩
  | never => simp [leaves, ha.not_isSubtype_never]
  | _ => simp [leaves]

/-- A type is below another one when everything that it is made of is below something that the other is made of. -/
theorem isSubtype_iff_leaves :
    isSubtype r a b = true ↔ ∀ t ∈ a.leaves, ∃ u ∈ b.leaves, isSubtype r t u = true := by
  rw [isSubtype_iff_forall_leaves]
  exact forall₂_congr fun t ht => (isMember_of_mem_leaves ht).isSubtype_iff_exists_leaf

namespace IsMember

variable {c : String} {e t d : Ty} {v : Variance} {ps : List Ty}

/-! Of the types that are no unions only containers compare with containers, and only callables with callables. -/

theorem container_isSubtype_iff (hd : d.IsMember) : isSubtype r (.container c e v) d = true ↔
    ∃ g f w, d = .container g f w ∧ r.conforms c g = true ∧ isSubtype r e f = true ∧
      (w = .invariant → isSubtype r f e = true) := by
  constructor
  · intro h
    cases byRule_of_isSubtype h with
    | same => exact ⟨c, e, v, rfl, Ty.container_isSubtype_iff.1 h⟩
    | member => exact absurd hd (not_isMember_union _)
    | container hc hs hw => exact ⟨_, _, _, rfl, hc, hs, hw⟩
  · rintro ⟨g, f, w, rfl, h⟩
    exact Ty.container_isSubtype_iff.2 h

theorem isSubtype_container_iff (hd : d.IsMember) : isSubtype r d (.container c e v) = true ↔
    ∃ g f w, d = .container g f w ∧ r.conforms g c = true ∧ isSubtype r f e = true ∧
      (v = .invariant → isSubtype r e f = true) := by
  constructor
  · intro h
    cases byRule_of_isSubtype h with
    | same => exact ⟨c, e, v, rfl, Ty.container_isSubtype_iff.1 h⟩
    | never => exact absurd hd not_isMember_never
    | union => exact absurd hd (not_isMember_union _)
    | container hc hs hw => exact ⟨_, _, _, rfl, hc, hs, hw⟩
  · rintro ⟨g, f, w, rfl, h⟩
    exact Ty.container_isSubtype_iff.2 h

theorem callable_isSubtype_iff (hd : d.IsMember) : isSubtype r (.callable ps t) d = true ↔
    ∃ qs u, d = .callable qs u ∧ List.Forall₂ (fun q p => isSubtype r q p = true) qs ps ∧
      isSubtype r t u = true := by
  constructor
  · intro h
    cases byRule_of_isSubtype h with
    | same => exact ⟨ps, t, rfl, Ty.callable_isSubtype_iff.1 h⟩
    | member => exact absurd hd (not_isMember_union _)
    | callable hp hs => exact ⟨_, _, rfl, hp, hs⟩
  · rintro ⟨qs, u, rfl, h⟩
    exact Ty.callable_isSubtype_iff.2 h

theorem isSubtype_callable_iff (hd : d.IsMember) : isSubtype r d (.callable ps t) = true ↔
    ∃ qs u, d = .callable qs u ∧ List.Forall₂ (fun p q => isSubtype r p q = true) ps qs ∧
      isSubtype r u t = true := by
  constructor
  · intro h
    cases byRule_of_isSubtype h with
    | same => exact ⟨ps, t, rfl, Ty.callable_isSubtype_iff.1 h⟩
    | never => exact absurd hd not_isMember_never
    | union => exact absurd hd (not_isMember_union _)
    | callable hp hs => exact ⟨_, _, rfl, hp, hs⟩
  · rintro ⟨qs, u, rfl, h⟩
    exact Ty.callable_isSubtype_iff.2 h

end IsMember

/-! ## Types that subtyping does not tell apart -/

section

variable {α β : Type} {R : α → β → Prop} {q q' : β} {p p' : α}

theorem forall₂_replace_right (h : ∀ z, R z q ↔ R z q') {zs : List α} {xs ys : List β} :
    List.Forall₂ R zs (xs ++ q :: ys) ↔ List.Forall₂ R zs (xs ++ q' :: ys) := by
  induction xs generalizing zs with
  | nil => cases zs <;> simp [h]
  | cons x xs ih => cases zs <;> simp [ih]

theorem forall₂_replace_left (h : ∀ z, R p z ↔ R p' z) {zs : List β} {xs ys : List α} :
    List.Forall₂ R (xs ++ p :: ys) zs ↔ List.Forall₂ R (xs ++ p' :: ys) zs := by
  have hflip : ∀ {as : List α}, List.Forall₂ R as zs ↔ List.Forall₂ (flip R) zs as := ⟨.flip, .flip⟩
  rw [hflip, hflip]
  exact forall₂_replace_right h

end

/-- Two types are below the same types, and above the same types. -/
structure Alike (r : Registry) (a b : Ty) : Prop where
  below : ∀ c, isSubtype r a c = isSubtype r b c
  above : ∀ c, isSubtype r c a = isSubtype r c b

theorem Alike.trans {c : Ty} (hab : Alike r a b) (hbc : Alike r b c) : Alike r a c :=
  ⟨fun x => (hab.below x).trans (hbc.below x), fun x => (hab.above x).trans (hbc.above x)⟩

theorem alike_of_leaves (h : ∀ t, t ∈ a.leaves ↔ t ∈ b.leaves) : Alike r a b := by
  constructor
  · intro c
    rw [Bool.eq_iff_iff, isSubtype_iff_forall_leaves, isSubtype_iff_forall_leaves]
    simp only [h]
  · intro c
    rw [Bool.eq_iff_iff, isSubtype_iff_leaves, isSubtype_iff_leaves]
    simp only [h]

/-- Types that are no unions are alike when such types do not tell them apart. -/
theorem alike_of_members (ha : a.IsMember) (hb : b.IsMember)
    (below : ∀ c, c.IsMember → isSubtype r a c = isSubtype r b c)
    (above : ∀ c, c.IsMember → isSubtype r c a = isSubtype r c b) : Alike r a b := by
  constructor
  · intro c
    rw [Bool.eq_iff_iff, ha.isSubtype_iff_exists_leaf, hb.isSubtype_iff_exists_leaf]
    refine exists_congr fun u => and_congr_right fun hu => ?_
    rw [below u (isMember_of_mem_leaves hu)]
  · intro c
    rw [Bool.eq_iff_iff, isSubtype_iff_forall_leaves, isSubtype_iff_forall_leaves (b := b)]
    refine forall₂_congr fun t ht => ?_
    rw [above t (isMember_of_mem_leaves ht)]

namespace Alike

theorem member (h : Alike r t u) (xs ys : List Ty) : Alike r (.union (xs ++ t :: ys)) (.union (xs ++ u :: ys)) := by
  constructor
  · intro c
    rw [Bool.eq_iff_iff, union_isSubtype_iff, union_isSubtype_iff]
    simp only [List.forall_mem_append, List.forall_mem_cons, h.below]
  · intro c
    rw [Bool.eq_iff_iff, isSubtype_iff_forall_leaves, isSubtype_iff_forall_leaves (b := .union (xs ++ u :: ys))]
    refine forall₂_congr fun d hd => ?_
    rw [(isMember_of_mem_leaves hd).isSubtype_iff_members, (isMember_of_mem_leaves hd).isSubtype_iff_members]
    simp only [members, List.mem_append, List.mem_cons, or_and_right, exists_or, exists_eq_left, h.above]

theorem element {e f : Ty} (h : Alike r e f) (c : String) (v : Variance) :
    Alike r (.container c e v) (.container c f v) := by
  refine alike_of_members rfl rfl (fun d hd => ?_) fun d hd => ?_
  · rw [Bool.eq_iff_iff, hd.container_isSubtype_iff, hd.container_isSubtype_iff]
    simp only [h.below, h.above]
  · rw [Bool.eq_iff_iff, hd.isSubtype_container_iff, hd.isSubtype_container_iff]
    simp only [h.below, h.above]

theorem param {p q : Ty} (h : Alike r p q) (xs ys : List Ty) (t : Ty) :
    Alike r (.callable (xs ++ p :: ys) t) (.callable (xs ++ q :: ys) t) := by
  have habove : ∀ zs, List.Forall₂ (fun z p => isSubtype r z p = true) zs (xs ++ p :: ys) ↔
      List.Forall₂ (fun z p => isSubtype r z p = true) zs (xs ++ q :: ys) :=
    fun zs => forall₂_replace_right fun z => by rw [h.above]
  have hbelow : ∀ zs, List.Forall₂ (fun p z => isSubtype r p z = true) (xs ++ p :: ys) zs ↔
      List.Forall₂ (fun p z => isSubtype r p z = true) (xs ++ q :: ys) zs :=
    fun zs => forall₂_replace_left fun z => by rw [h.below]
  refine alike_of_members rfl rfl (fun d hd => ?_) fun d hd => ?_
  · rw [Bool.eq_iff_iff, hd.callable_isSubtype_iff, hd.callable_isSubtype_iff]
    simp only [habove]
  · rw [Bool.eq_iff_iff, hd.isSubtype_callable_iff, hd.isSubtype_callable_iff]
    simp only [hbelow]

theorem ret (h : Alike r t u) (ps : List Ty) : Alike r (.callable ps t) (.callable ps u) := by
  refine alike_of_members rfl rfl (fun d hd => ?_) fun d hd => ?_
  · rw [Bool.eq_iff_iff, hd.callable_isSubtype_iff, hd.callable_isSubtype_iff]
    simp only [h.below]
  · rw [Bool.eq_iff_iff, hd.isSubtype_callable_iff, hd.isSubtype_callable_iff]
    simp only [h.above]

end Alike

/-! ## Other spellings of a union -/

/-- The second type spells unions in the first one in another way, at any depth: what they are made of is ordered,
grouped or repeated differently. -/
inductive Respelled : Ty → Ty → Prop
  | leaves {a b : Ty} : (∀ t, t ∈ a.leaves ↔ t ∈ b.leaves) → Respelled a b
  | member {t u : Ty} (xs ys : List Ty) : Respelled t u → Respelled (.union (xs ++ t :: ys)) (.union (xs ++ u :: ys))
  | element {e f : Ty} (c : String) (v : Variance) : Respelled e f → Respelled (.container c e v) (.container c f v)
  | param {p q : Ty} (xs ys : List Ty) (t : Ty) : Respelled p q →
      Respelled (.callable (xs ++ p :: ys) t) (.callable (xs ++ q :: ys) t)
  | ret {t u : Ty} (ps : List Ty) : Respelled t u → Respelled (.callable ps t) (.callable ps u)
  | trans {a b c : Ty} : Respelled a b → Respelled b c → Respelled a c

theorem Respelled.alike (h : Respelled a b) (r : Registry) : Alike r a b := by
  induction h with
  | leaves h => exact alike_of_leaves h
  | member xs ys _ ih => exact ih.member xs ys
  | element c v _ ih => exact ih.element c v
  | param xs ys t _ ih => exact ih.param xs ys t
  | ret ps _ ih => exact ih.ret ps
  | trans _ _ ihab ihbc => exact ihab.trans ihbc

/-- **The union of types is their join, and what is no union is prime for it.** Whatever has each of the types below
it has their union below it, and the other way round; a type that is no union is below theirs just when it is below
one of them. So lists that are made of the same types have unions that are spelled differently, and how the unions in
two types are spelled does not decide which of the two is below the other. -/
theorem join_isLeast_and_prime (r : Registry) :
    (∀ ms c, isSubtype r (join ms) c = true ↔ ∀ m ∈ ms, isSubtype r m c = true) ∧
      (∀ a ms, a.isUnion = false → a ≠ .never →
        (isSubtype r a (join ms) = true ↔ ∃ m ∈ ms, isSubtype r a m = true)) ∧
      (∀ ms ns : List Ty, (∀ t, (∃ m ∈ ms, t ∈ m.leaves) ↔ ∃ n ∈ ns, t ∈ n.leaves) → Respelled (join ms) (join ns)) ∧
      ∀ a a' b b', Respelled a a' → Respelled b b' → isSubtype r a b = isSubtype r a' b' := by
  refine ⟨fun ms c => join_isSubtype_iff, ?_, ?_, ?_⟩
  · intro a ms hunion hnever
    exact (isMember_iff.2 ⟨hunion, hnever⟩).isSubtype_join_iff
  · intro ms ns h
    refine .leaves fun t => ?_
    rw [mem_leaves_join, mem_leaves_join, h]
  · intro a a' b b' ha hb
    calc isSubtype r a b
      _ = isSubtype r a' b := (ha.alike r).below b
      _ = isSubtype r a' b' := (hb.alike r).above a'

/-- A literal is below a union through a union in it, and an invariant container does not tell spellings apart. -/
theorem join_isLeast_and_prime_nested :
    isSubtype .builtin (.literal (.int 1)) (join [.never, .union [.str, .int]]) = true ∧
      isSubtype .builtin (.container "list" (.union [.int, .union [.str, .int]]) .invariant)
        (.container "list" (.union [.str, .int]) .invariant) = true := by
  obtain ⟨-, prime, -, respelled⟩ := join_isLeast_and_prime .builtin
  constructor
  · have hint : isSubtype .builtin (.literal (.int 1)) (.union [.str, .int]) = true :=
      isSubtype_union (t := .int) (by simp) (literal_isSubtype _ (.int 1))
    exact (prime _ _ rfl (by simp)).2 ⟨_, by simp, hint⟩
  · have hleft : Respelled (.union [.int, .union [.str, .int]]) (.union [.str, .int]) :=
      .leaves fun t => by simp [leaves, leavesList, or_comm]
    have hright : Respelled (.container "list" (.union [.str, .int]) .invariant) _ := .leaves fun _ => Iff.rfl
    rw [respelled _ _ _ _ (hleft.element "list" .invariant) hright]
    exact isSubtype_refl _ _

end AnnotationChecker.Ty
