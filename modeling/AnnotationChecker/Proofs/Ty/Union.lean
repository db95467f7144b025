import Mathlib.Data.List.Induction
import AnnotationChecker.Ty
/-!
# Canonical unions

`Ty.join` collects the members of types, each once. The list it builds is `Ty.distinct` of all members:
the first occurrences, in their order. Collecting a part of the members beforehand changes nothing
(`distinct_append`, `join_splice`), so joining is associative on flat types.
-/

namespace AnnotationChecker.Ty

/-! ## First occurrences -/

theorem distinct_concat (ts : List Ty) (t : Ty) : distinct (ts ++ [t]) = pushUnique (distinct ts) t := by
  simp [distinct]

theorem mem_pushUnique {u t : Ty} {ts : List Ty} : u ∈ pushUnique ts t ↔ u ∈ ts ∨ u = t := by
  unfold pushUnique
  split
  · constructor
    · exact .inl
    · rintro (h | rfl) <;> assumption
  · simp

theorem mem_distinct {u : Ty} {ts : List Ty} : u ∈ distinct ts ↔ u ∈ ts := by
  induction ts using List.reverseRecOn with
  | nil => simp [distinct]
  | append_singleton ts t ih => simp [distinct_concat, mem_pushUnique, ih]

theorem nodup_distinct (ts : List Ty) : (distinct ts).Nodup := by
  induction ts using List.reverseRecOn with
  | nil => simp [distinct]
  | append_singleton ts t ih =>
    rw [distinct_concat, pushUnique]
    split
    · exact ih
    · next h =>
      refine List.nodup_append.2 ⟨ih, by simp, ?_⟩
      intro u hu v hv huv
      simp only [List.mem_singleton] at hv
      exact h (hv ▸ huv ▸ hu)

theorem distinct_of_nodup {ts : List Ty} (h : ts.Nodup) : distinct ts = ts := by
  induction ts using List.reverseRecOn with
  | nil => rfl
  | append_singleton ts t ih =>
    obtain ⟨hn, -, hd⟩ := List.nodup_append.1 h
    have ht : t ∉ ts := fun hm => hd t hm t (by simp) rfl
    rw [distinct_concat, ih hn, pushUnique, if_neg ht]

/-- The first occurrences are what is left when later ones are erased. -/
theorem distinct_eq_eraseDups (ts : List Ty) : distinct ts = ts.eraseDups := by
  induction ts using List.reverseRecOn with
  | nil => rfl
  | append_singleton ts t ih =>
    rw [distinct_concat, List.eraseDups_append, ← ih, pushUnique]
    have hone : [t].eraseDups = [t] := by rw [List.eraseDups_cons]; rfl
    by_cases h : t ∈ ts <;> simp [List.removeAll, mem_distinct, h, hone]

/-- Later types add those of their first occurrences that are new. -/
theorem distinct_append (xs ys : List Ty) :
    distinct (xs ++ ys) = distinct xs ++ (distinct ys).filter (· ∉ distinct xs) := by
  induction ys using List.reverseRecOn with
  | nil => simp [distinct]
  | append_singleton ys y ih =>
    rw [← List.append_assoc, distinct_concat, distinct_concat, ih]
    by_cases hx : y ∈ distinct xs <;> by_cases hy : y ∈ distinct ys <;>
      simp [pushUnique, hx, hy, List.filter_append]

@[simp] theorem distinct_distinct (ts : List Ty) : distinct (distinct ts) = distinct ts :=
  distinct_of_nodup (nodup_distinct ts)

theorem distinct_distinct_append (xs ys : List Ty) : distinct (distinct xs ++ ys) = distinct (xs ++ ys) := by
  rw [distinct_append, distinct_append xs, distinct_distinct]

theorem distinct_append_distinct (xs ys : List Ty) : distinct (xs ++ distinct ys) = distinct (xs ++ ys) := by
  rw [distinct_append, distinct_append xs, distinct_distinct]

theorem distinct_sublist (ts : List Ty) : (distinct ts).Sublist ts := by
  induction ts using List.reverseRecOn with
  | nil => simp [distinct]
  | append_singleton ts t ih =>
    rw [distinct_concat, pushUnique]
    split
    · exact ih.trans (List.sublist_append_left ts [t])
    · exact ih.append (List.Sublist.refl [t])

/-- A list that loses no type had no type twice. -/
theorem eq_of_length_distinct {ts : List Ty} (h : (distinct ts).length = ts.length) : distinct ts = ts :=
  (distinct_sublist ts).eq_of_length h

/-! ## Members -/

/-- A type that can be a member of a canonical union: no union and not `Never`. -/
def IsMember (t : Ty) : Prop := t.members = [t]

theorem mem_members {t u : Ty} (h : t.IsMember) : u ∈ t.members ↔ u = t := by
  rw [h]; simp

theorem not_isMember_union (ts : List Ty) : ¬ IsMember (.union ts) := by
  intro h
  have hs := congrArg sizeOf (show ts = [union ts] from h)
  simp only [List.cons.sizeOf_spec, List.nil.sizeOf_spec, union.sizeOf_spec] at hs
  omega

theorem not_isMember_never : ¬ IsMember .never := by
  intro h; cases h

theorem members_ofMembers {ts : List Ty} (h : ∀ t ∈ ts, t.IsMember) : (ofMembers ts).members = ts := by
  match ts, h with
  | [], _ => rfl
  | [t], h => exact h t (by simp)
  | _ :: _ :: _, _ => rfl

/-- A type that is the canonical union of its members, none of which is a union itself. -/
structure Flat (t : Ty) : Prop where
  member : ∀ u ∈ t.members, u.IsMember
  joined : join [t] = t

theorem flat_never : Flat .never where
  member _ hu := by cases hu
  joined := rfl

theorem IsMember.flat {t : Ty} (h : t.IsMember) : t.Flat where
  member u hu := by
    rw [mem_members h] at hu
    exact hu ▸ h
  joined := by
    unfold join
    rw [List.flatMap_singleton, h]
    rfl

theorem members_join {ts : List Ty} (h : ∀ t ∈ ts, t.Flat) : (join ts).members = distinct (ts.flatMap members) := by
  apply members_ofMembers
  intro u hu
  obtain ⟨t, ht, hu⟩ := List.mem_flatMap.1 (mem_distinct.1 hu)
  exact (h t ht).member u hu

/-- In place of a union, its types can be joined. -/
theorem join_splice (xs zs : List Ty) {ys : List Ty} (h : ∀ y ∈ ys, y.Flat) :
    join (xs ++ join ys :: zs) = join (xs ++ ys ++ zs) := by
  have hm : members (ofMembers (distinct (ys.flatMap members))) = distinct (ys.flatMap members) := members_join h
  unfold join
  simp only [List.flatMap_append, List.flatMap_cons, hm]
  rw [← List.append_assoc, ← distinct_distinct_append, distinct_append_distinct, distinct_distinct_append]

theorem flat_join {ts : List Ty} (h : ∀ t ∈ ts, t.Flat) : (join ts).Flat where
  member u hu := by
    rw [members_join h, mem_distinct] at hu
    obtain ⟨t, ht, hu⟩ := List.mem_flatMap.1 hu
    exact (h t ht).member u hu
  joined := by simpa using join_splice [] [] h

/-- Joining two types and then a third, or the last two first, is the same. -/
theorem join_assoc {a b c : Ty} (ha : a.Flat) (hb : b.Flat) (hc : c.Flat) :
    join [a, join [b, c]] = join [join [a, b], c] := by
  have hbc : ∀ y ∈ [b, c], y.Flat := by simp [hb, hc]
  have hab : ∀ y ∈ [a, b], y.Flat := by simp [ha, hb]
  exact (join_splice [a] [] hbc).trans (join_splice [] [c] hab).symm

end AnnotationChecker.Ty
