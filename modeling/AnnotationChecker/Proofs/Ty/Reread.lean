import AnnotationChecker.Proofs.Ty.Hint
/-!
# Types with their texts read back

The text of a type is read back as the text of another one, `Ty.reread`: string literals hold what their
quoted text is read as. A canonical type is the normal form of what it is read back as only when it is read back
as itself (`Ty.normalized_reread_iff`), since nothing else in a type changes.
-/

namespace AnnotationChecker

open Hint (nowhere)

/-- A value as it is read back. -/
def Literal.reread : Literal → Literal
  | .str s => .str (Text.reread s)
  | v => v

@[simp] theorem Literal.kind_reread (v : Literal) : v.reread.kind = v.kind := by
  cases v <;> rfl

namespace Ty

mutual

/-- A type as its text is read back. -/
def reread : Ty → Ty
  | .literal v => .literal v.reread
  | .union ts => .union (rereadList ts)
  | .container c e v => .container c (reread e) v
  | .callable ps t => .callable (rereadList ps) (reread t)
  | t => t

/-- Each type of a list as it is read back. -/
def rereadList : List Ty → List Ty
  | [] => []
  | t :: ts => reread t :: rereadList ts

end

@[simp] theorem rereadList_eq_map (ts : List Ty) : rereadList ts = ts.map reread := by
  induction ts with
  | nil => rfl
  | cons t ts ih => simp [rereadList, ih]

/-! ## Its parts -/

theorem partsList_reread {ts : List Ty} (h : ∀ t ∈ ts, t.reread.parts = t.parts.map reread) :
    partsList (ts.map reread) = (partsList ts).map reread := by
  induction ts with
  | nil => rfl
  | cons t ts ih => simp [partsList, h t (by simp), ih fun u hu => h u (List.mem_cons_of_mem _ hu)]

theorem parts_reread (t : Ty) : t.reread.parts = t.parts.map reread := by
  induction t using inductionOn with
  | primitive k => simp [reread, parts]
  | literal v => simp [reread, parts]
  | never => simp [reread, parts]
  | container c e v ih => simp [reread, parts, ih]
  | union ts ih => simp [reread, parts, partsList_reread ih]
  | callable ps t ihp iht => simp [reread, parts, partsList_reread ihp, iht]

theorem Consistent.reread {r : Registry} {t : Ty} (h : t.Consistent r) : t.reread.Consistent r := by
  intro c e v hm
  rw [parts_reread] at hm
  obtain ⟨p, hp, he⟩ := List.mem_map.1 hm
  cases p with
  | container c' e' v' =>
    rw [Ty.reread, container.injEq] at he
    obtain ⟨rfl, -, rfl⟩ := he
    exact h c' e' v' hp
  | _ => simp [Ty.reread] at he

theorem Proper.reread {t : Ty} (h : t.Proper) : t.reread.Proper := by
  intro hm
  rw [parts_reread] at hm
  obtain ⟨p, hp, he⟩ := List.mem_map.1 hm
  cases p with
  | union ts =>
    rw [Ty.reread, rereadList_eq_map, union.injEq, List.map_eq_nil_iff] at he
    exact h (he ▸ hp)
  | _ => simp [Ty.reread] at he

/-- A type is read back as itself when its texts are. -/
theorem reread_eq_self_iff {t : Ty} : t.reread = t ↔ ∀ s, .literal (.str s) ∈ t.parts → Text.reread s = s := by
  constructor
  · intro h s hs
    -- the parts of a type are read back one by one, so each of them is its own image
    have hmap : t.parts.map reread = t.parts.map id := by
      rw [← parts_reread, h, List.map_id]
    have hlit : reread (.literal (.str s)) = .literal (.str s) := List.map_inj_left.1 hmap _ hs
    rw [reread, Literal.reread, literal.injEq, Literal.str.injEq] at hlit
    exact hlit
  · intro h
    induction t using inductionOn with
    | primitive k => rfl
    | never => rfl
    | literal v =>
      cases v with
      | str s => rw [reread, Literal.reread, h s (self_mem_parts _)]
      | _ => rfl
    | container c e v ih => rw [reread, ih fun s hs => h s (mem_parts_of_element hs)]
    | union ts ih =>
      have hts : ∀ t ∈ ts, t.reread = t := fun t ht =>
        ih t ht fun s hs => h s (mem_parts_of_member ht hs)
      rw [reread, rereadList_eq_map, List.map_congr_left hts, List.map_id']
    | callable ps t ihp iht =>
      have hps : ∀ p ∈ ps, p.reread = p := fun p hp =>
        ihp p hp fun s hs => h s (mem_parts_of_param hp hs)
      have ht := iht fun s hs => h s (mem_parts_of_ret hs)
      rw [reread, rereadList_eq_map, List.map_congr_left hps, List.map_id', ht]

/-! ## Its normal form -/

theorem IsMember.reread {t : Ty} (h : t.IsMember) : t.reread.IsMember := by
  cases t with
  | union ts => exact absurd h (not_isMember_union ts)
  | never => exact absurd h not_isMember_never
  | _ => rfl

/-- A union is made of no other types than its members. -/
theorem eq_of_ofMembers {us ts : List Ty} (h : ∀ u ∈ us, u.IsMember) (he : ofMembers us = .union ts) : us = ts := by
  match us, h, he with
  | [u], h, he =>
    have hu : u = .union ts := he
    exact absurd (h u (by simp)) (hu ▸ not_isMember_union ts)
  | _ :: _ :: _, _, he => exact union.inj he

/-- A canonical type is the normal form of what it is read back as only when that is the type itself: where two
texts are read back as one, the union loses a member. -/
theorem Canonical.normalized_reread_iff {t : Ty} (h : t.Canonical) : t.reread.normalized = t ↔ t.reread = t := by
  refine ⟨fun he => ?_, fun he => by rw [he, h.normalized_eq]⟩
  induction h with
  | primitive k | never => rfl
  | literal v => exact he
  | container c v element ih =>
    rw [reread, Ty.normalized, container.injEq] at he
    rw [reread, ih he.2.1]
  | @callable ps t params ret ihp iht =>
    rw [reread, rereadList_eq_map, Ty.normalized, normalizedList_eq_map, List.map_map, callable.injEq] at he
    have hps : ps.map (Ty.normalized ∘ reread) = ps.map id := by rw [he.1, List.map_id]
    have hfix : ∀ p ∈ ps, p.reread = p := fun p hp => ihp p hp (List.map_inj_left.1 hps p hp)
    rw [reread, rereadList_eq_map, List.map_congr_left hfix, List.map_id', iht he.2]
  | @union ts two nodup member all ih =>
    have hmember : ∀ u ∈ ts.map (Ty.normalized ∘ reread), u.IsMember :=
      List.forall_mem_map.2 fun t ht => (member t ht).reread.normalized
    have hdistinct : ∀ u ∈ distinct (ts.map (Ty.normalized ∘ reread)), u.IsMember :=
      fun u hu => hmember u (mem_distinct.1 hu)
    rw [reread, rereadList_eq_map, Ty.normalized, normalizedList_eq_map, List.map_map, join_of_members hmember] at he
    have hts := eq_of_ofMembers hdistinct he
    -- no member is lost, so none was read back as another one
    have hlen : (distinct (ts.map (Ty.normalized ∘ reread))).length = (ts.map (Ty.normalized ∘ reread)).length := by
      rw [hts, List.length_map]
    have hmap : ts.map (Ty.normalized ∘ reread) = ts.map id := by
      rw [← eq_of_length_distinct hlen, hts, List.map_id]
    have hfix : ∀ t ∈ ts, t.reread = t := fun t ht => ih t ht (List.map_inj_left.1 hmap t ht)
    rw [reread, rereadList_eq_map, List.map_congr_left hfix, List.map_id']

end Ty

end AnnotationChecker
