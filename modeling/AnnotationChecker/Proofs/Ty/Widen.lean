import AnnotationChecker.Proofs.Ty.Join
/-!
# Widening

Widening a type widens each of the types that it is made of (`mem_leaves_widen`) and joins them anew, so that none of
its members is a literal; literals inside of containers and callables stay. No smaller type is above the given one and
free of literals: what has no literal among its members is above a type just when it is above the widened one
(`widen_isLeast`).
-/

namespace AnnotationChecker.Ty

variable {r : Registry} {t u : Ty}

/-- No member is a literal. -/
def LiteralFree (t : Ty) : Prop := ∀ v, .literal v ∉ t.members

/-! ## What a widened type is made of -/

theorem IsMember.widen_ne_literal (h : t.IsMember) (v : Literal) : t.widen ≠ .literal v := by
  cases t with
  | union ts => exact absurd h (not_isMember_union ts)
  | _ => exact Ty.noConfusion

theorem widen_of_ne_literal (h : t.IsMember) (hv : ∀ v, t ≠ .literal v) : t.widen = t := by
  cases t with
  | union ts => exact absurd h (not_isMember_union ts)
  | literal v => exact absurd rfl (hv v)
  | _ => rfl

theorem mem_leaves_widen : u ∈ t.widen.leaves ↔ ∃ m ∈ t.leaves, m.widen = u := by
  induction t using inductionOn with
  | union ts ih =>
    rw [widen, widenList_eq_map, mem_leaves_join]
    constructor
    · rintro ⟨w, hw, hu⟩
      obtain ⟨m, hm, rfl⟩ := List.mem_map.1 hw
      obtain ⟨l, hl, rfl⟩ := (ih m hm).1 hu
      exact ⟨l, mem_leaves_union.2 ⟨m, hm, hl⟩, rfl⟩
    · rintro ⟨l, hl, rfl⟩
      obtain ⟨m, hm, hl⟩ := mem_leaves_union.1 hl
      exact ⟨m.widen, List.mem_map_of_mem hm, (ih m hm).2 ⟨l, hl, rfl⟩⟩
  | _ => simp [widen, leaves, eq_comm]

theorem flat_widen (t : Ty) : t.widen.Flat := by
  induction t using inductionOn with
  | union ts ih =>
    rw [widen, widenList_eq_map]
    exact flat_join (List.forall_mem_map.2 ih)
  | never => exact flat_never
  | _ => exact IsMember.flat rfl

theorem literalFree_widen (t : Ty) : t.widen.LiteralFree := by
  intro v hv
  have hleaf : .literal v ∈ t.widen.leaves := mem_leaves_iff_members.2 ⟨_, hv, List.mem_singleton_self _⟩
  obtain ⟨m, hm, hwiden⟩ := mem_leaves_widen.1 hleaf
  exact (isMember_of_mem_leaves hm).widen_ne_literal v hwiden

/-- Only literals are changed, and a union is joined already when it is flat. -/
theorem widen_eq_self (hflat : t.Flat) (hfree : t.LiteralFree) : t.widen = t := by
  cases t with
  | literal v => exact absurd (List.mem_singleton_self _) (hfree v)
  | union ts =>
    have hmember : ∀ m ∈ ts, m.IsMember := hflat.member
    have hsame : ts.map widen = ts.map id := by
      apply List.map_congr_left
      intro m hm
      apply widen_of_ne_literal (hmember m hm)
      rintro v rfl
      exact hfree v hm
    have hjoin : ts.flatMap members = [union ts].flatMap members := by
      rw [flatMap_members hmember, List.flatMap_singleton, members]
    calc (union ts).widen
      _ = join ts := by rw [widen, widenList_eq_map, hsame, List.map_id]
      _ = join [union ts] := by rw [join, join, hjoin]
      _ = union ts := hflat.joined
  | _ => rfl

/-! ## Widening and subtyping -/

theorem IsMember.isSubtype_widen (h : t.IsMember) : isSubtype r t t.widen = true := by
  cases t with
  | union ts => exact absurd h (not_isMember_union ts)
  | literal v => exact literal_isSubtype r v
  | _ => exact isSubtype_refl r _

/-- Only its built-in type is above a literal, but for the literal itself and unions. -/
theorem literal_isSubtype_iff {v : Literal} (hu : u.IsMember) (hv : u ≠ .literal v) :
    isSubtype r (.literal v) u = true ↔ isSubtype r (.primitive v.kind) u = true := by
  constructor
  · intro h
    cases byRule_of_isSubtype h with
    | same => exact absurd rfl hv
    | literal => exact isSubtype_refl r _
    | member => exact absurd hu (not_isMember_union _)
  · intro h
    cases byRule_of_isSubtype h with
    | same => exact literal_isSubtype r v
    | member => exact absurd hu (not_isMember_union _)

/-- Above what is no union, a type without literals is above the widened type, too. -/
theorem IsMember.widen_isSubtype_iff (h : t.IsMember) (hu : ∀ m ∈ u.members, m.IsMember) (hfree : u.LiteralFree) :
    isSubtype r t.widen u = true ↔ isSubtype r t u = true := by
  cases t with
  | union ts => exact absurd h (not_isMember_union ts)
  | literal v =>
    have hkind : IsMember (.primitive v.kind) := rfl
    rw [widen, hkind.isSubtype_iff_members, h.isSubtype_iff_members]
    refine exists_congr fun m => and_congr_right fun hm => (literal_isSubtype_iff (hu m hm) ?_).symm
    rintro rfl
    exact hfree v hm
  | _ => exact Iff.rfl

/-- **Widening gives the least type above a type that is free of literals.** It is above the type, none of its members
is a literal, and widening it again changes nothing; and a canonical type without literals among its members is above
it just when it is above the type. -/
theorem widen_isLeast (r : Registry) (t : Ty) :
    isSubtype r t t.widen = true ∧ t.widen.LiteralFree ∧ t.widen.widen = t.widen ∧
      ∀ u : Ty, u.Canonical → u.LiteralFree → isSubtype r t.widen u = isSubtype r t u := by
  refine ⟨?_, literalFree_widen t, widen_eq_self (flat_widen t) (literalFree_widen t), ?_⟩
  · rw [isSubtype_iff_leaves]
    intro m hm
    exact ⟨m.widen, mem_leaves_widen.2 ⟨m, hm, rfl⟩, (isMember_of_mem_leaves hm).isSubtype_widen⟩
  · intro u hu hfree
    rw [Bool.eq_iff_iff, isSubtype_iff_forall_leaves, isSubtype_iff_forall_leaves (a := t)]
    have hmembers : ∀ m ∈ u.members, m.IsMember := fun m hm => (hu.of_mem_members hm).1
    constructor
    · intro h m hm
      rw [← (isMember_of_mem_leaves hm).widen_isSubtype_iff hmembers hfree]
      exact h m.widen (mem_leaves_widen.2 ⟨m, hm, rfl⟩)
    · intro h l hl
      obtain ⟨m, hm, rfl⟩ := mem_leaves_widen.1 hl
      exact ((isMember_of_mem_leaves hm).widen_isSubtype_iff hmembers hfree).2 (h m hm)

/-- Literals of one kind, at different depths of a union, merge into their built-in type; a literal inside of a list
stays. -/
example : widen (.union [.literal (.int 1), .union [.literal (.int 2), .container "list" (.literal (.int 3)) .invariant]]) =
    .union [.int, .container "list" (.literal (.int 3)) .invariant] := by decide

end AnnotationChecker.Ty
