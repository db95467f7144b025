import AnnotationChecker.Proofs.Ty.Parts
import AnnotationChecker.Proofs.Ty.Union
/-!
# Canonical types

A type is canonical when each union inside of it has two members at least, none of them a union or `Never`,
and no member twice. `Ty.normalized` gives canonical types, and leaves those as they are.
-/

namespace AnnotationChecker.Ty

/-- Types all of whose unions are canonical. -/
inductive Canonical : Ty → Prop
  | primitive (k : Primitive) : Canonical (.primitive k)
  | literal (v : Literal) : Canonical (.literal v)
  | never : Canonical .never
  | union {ts : List Ty} (two : 2 ≤ ts.length) (nodup : ts.Nodup) (member : ∀ t ∈ ts, t.IsMember)
      (all : ∀ t ∈ ts, Canonical t) : Canonical (.union ts)
  | container {e : Ty} (c : String) (v : Variance) (element : Canonical e) : Canonical (.container c e v)
  | callable {ps : List Ty} {t : Ty} (params : ∀ p ∈ ps, Canonical p) (ret : Canonical t) : Canonical (.callable ps t)

theorem ofMembers_of_two {ts : List Ty} (h : 2 ≤ ts.length) : ofMembers ts = .union ts := by
  match ts, h with
  | _ :: _ :: _, _ => rfl

theorem flatMap_members {ts : List Ty} (h : ∀ t ∈ ts, t.IsMember) : ts.flatMap members = ts := by
  induction ts with
  | nil => rfl
  | cons t ts ih =>
    have ht : t.members = [t] := h t (by simp)
    rw [List.flatMap_cons, ht, ih fun u hu => h u (List.mem_cons_of_mem _ hu), List.singleton_append]

theorem join_of_members {ts : List Ty} (h : ∀ t ∈ ts, t.IsMember) : join ts = ofMembers (distinct ts) := by
  rw [join, flatMap_members h]

namespace Canonical

/-- The members of a canonical type are canonical, and no unions. -/
theorem of_mem_members {t u : Ty} (h : t.Canonical) (hu : u ∈ t.members) : u.IsMember ∧ u.Canonical := by
  cases h with
  | union two nodup member all => exact ⟨member u hu, all u hu⟩
  | never => cases hu
  | primitive k => cases List.mem_singleton.1 hu; exact ⟨rfl, .primitive k⟩
  | literal v => cases List.mem_singleton.1 hu; exact ⟨rfl, .literal v⟩
  | container c v element => cases List.mem_singleton.1 hu; exact ⟨rfl, .container c v element⟩
  | callable params ret => cases List.mem_singleton.1 hu; exact ⟨rfl, .callable params ret⟩

theorem flat {t : Ty} (h : t.Canonical) : t.Flat := by
  cases h with
  | union two nodup member all =>
    refine ⟨member, ?_⟩
    rw [join, List.flatMap_singleton, members, distinct_of_nodup nodup, ofMembers_of_two two]
  | never => exact flat_never
  | _ => exact IsMember.flat rfl

theorem join {ts : List Ty} (h : ∀ t ∈ ts, t.Canonical) : (Ty.join ts).Canonical := by
  have hall : ∀ u ∈ distinct (ts.flatMap members), u.IsMember ∧ u.Canonical := by
    intro u hu
    obtain ⟨t, ht, hu⟩ := List.mem_flatMap.1 (mem_distinct.1 hu)
    exact (h t ht).of_mem_members hu
  have hnodup := nodup_distinct (ts.flatMap members)
  -- no member makes `Never`, one makes itself, and only two or more make a union
  unfold Ty.join
  match distinct (ts.flatMap members), hall, hnodup with
  | [], _, _ => exact .never
  | [t], hall, _ => exact (hall t (by simp)).2
  | t :: u :: us, hall, hnodup =>
    exact .union (by simp) hnodup (fun t ht => (hall t ht).1) fun t ht => (hall t ht).2

theorem normalized (t : Ty) : t.normalized.Canonical := by
  induction t using inductionOn with
  | primitive k => exact .primitive k
  | literal v => exact .literal v
  | never => exact .never
  | container c e v ih => exact .container c v ih
  | union ts ih =>
    rw [Ty.normalized, normalizedList_eq_map]
    exact join (List.forall_mem_map.2 ih)
  | callable ps t ihp iht =>
    rw [Ty.normalized, normalizedList_eq_map]
    exact .callable (List.forall_mem_map.2 ihp) iht

theorem normalized_eq {t : Ty} (h : t.Canonical) : t.normalized = t := by
  induction h with
  | primitive k => rfl
  | literal v => rfl
  | never => rfl
  | container c v element ih => rw [Ty.normalized, ih]
  | @callable ps t params ret ihp iht =>
    rw [Ty.normalized, normalizedList_eq_map, (List.map_congr_left ihp).trans (List.map_id' ps), iht]
  | @union ts two nodup member all ih =>
    rw [Ty.normalized, normalizedList_eq_map, (List.map_congr_left ih).trans (List.map_id' ts),
      join_of_members member, distinct_of_nodup nodup, ofMembers_of_two two]

theorem proper {t : Ty} (h : t.Canonical) : t.Proper := by
  unfold Proper
  induction h with
  | primitive k | literal v | never => simp [parts]
  | container c v element ih => simpa [parts] using ih
  | callable params ret ihp iht =>
    simp only [parts, List.mem_cons, reduceCtorEq, List.mem_append, mem_partsList, false_or, not_or,
      not_exists, not_and]
    exact ⟨ihp, iht⟩
  | @union ts two nodup member all ih =>
    have hts : ts ≠ [] := by
      rintro rfl
      simp at two
    simp only [parts, List.mem_cons, union.injEq, mem_partsList, not_or, not_exists, not_and]
    exact ⟨fun he => hts he.symm, ih⟩

end Canonical

theorem IsMember.normalized {t : Ty} (h : t.IsMember) : t.normalized.IsMember := by
  cases t with
  | union ts => exact absurd h (not_isMember_union ts)
  | never => exact absurd h not_isMember_never
  | _ => rfl

/-- The types that normalizing leaves as they are. -/
theorem normalized_eq_iff {t : Ty} : t.normalized = t ↔ t.Canonical :=
  ⟨fun h => h ▸ Canonical.normalized t, Canonical.normalized_eq⟩

end AnnotationChecker.Ty
