import AnnotationChecker.Proofs.Ty.Canonical
/-!
# Types joined in groups

The members of joined types are the members of each of them, in order, each where it occurs first. Whether types are
joined all at once, or in groups of neighbours first, makes no difference (`join_map_join`); `Never` is what an empty
group is joined to, so it changes nothing wherever it stands (`join_never_between`).
-/

namespace AnnotationChecker.Ty

variable {t : Ty}

/-- Groups of flat types behind other types can be joined beforehand. -/
theorem join_append_map_join (xs : List Ty) {gs : List (List Ty)} (h : ∀ g ∈ gs, ∀ t ∈ g, t.Flat) :
    join (xs ++ gs.map join) = join (xs ++ gs.flatten) := by
  induction gs generalizing xs with
  | nil => rfl
  | cons g gs ih =>
    obtain ⟨hg, hgs⟩ := List.forall_mem_cons.1 h
    calc join (xs ++ join g :: gs.map join)
      _ = join (xs ++ g ++ gs.map join) := join_splice xs (gs.map join) hg
      _ = join (xs ++ g ++ gs.flatten) := ih (xs ++ g) hgs
      _ = join (xs ++ (g :: gs).flatten) := by rw [List.append_assoc, List.flatten_cons]

theorem join_map_join {gs : List (List Ty)} (h : ∀ g ∈ gs, ∀ t ∈ g, t.Flat) : join (gs.map join) = join gs.flatten :=
  join_append_map_join [] h

/-- `Never` is what no types are joined to. -/
theorem join_never_between (xs ys : List Ty) : join (xs ++ .never :: ys) = join (xs ++ ys) := by
  have hempty : join (xs ++ join [] :: ys) = join (xs ++ [] ++ ys) := join_splice xs ys (by simp)
  rwa [List.append_nil] at hempty

theorem Flat.join_never (h : t.Flat) : join [.never, t] = t ∧ join [t, .never] = t :=
  ⟨(join_never_between [] [t]).trans h.joined, (join_never_between [t] []).trans h.joined⟩

/-- **Joining keeps first occurrences and does not depend on grouping.** Canonical types are joined to a canonical type,
whose members are all of their members without the later ones of those that are the same. Joining neighbours first, in
groups of any sizes, gives the same type, and `Never` is the unit. -/
theorem join_grouped {ts : List Ty} (h : ∀ t ∈ ts, t.Canonical) :
    (join ts).members = (ts.flatMap members).eraseDups ∧ (join ts).Canonical ∧
      (∀ gs : List (List Ty), gs.flatten = ts → join (gs.map join) = join ts) ∧
      join [] = .never ∧ (∀ xs ys, xs ++ ys = ts → join (xs ++ .never :: ys) = join ts) ∧
      ∀ t ∈ ts, join [.never, t] = t ∧ join [t, .never] = t := by
  have hflat : ∀ t ∈ ts, t.Flat := fun t ht => (h t ht).flat
  refine ⟨?_, .join h, ?_, rfl, ?_, fun t ht => (hflat t ht).join_never⟩
  · rw [members_join hflat, distinct_eq_eraseDups]
  · rintro gs rfl
    exact join_map_join fun g hg t ht => hflat t (List.mem_flatten_of_mem hg ht)
  · rintro xs ys rfl
    exact join_never_between xs ys

/-- A group that collapses to one type, an empty one, and one whose union has members that occurred before. -/
theorem join_grouped_sample :
    (∀ t ∈ [int, int, union [str, int], none], t.Canonical) ∧
      join [join [int, int], join [], join [union [str, int], none]] = union [int, str, none] := by
  have hunion : Canonical (union [str, int]) :=
    .union (by decide) (by decide) (by simp [IsMember, members]) (by simp [Canonical.primitive])
  have h : ∀ t ∈ [int, int, union [str, int], none], t.Canonical := by simp [Canonical.primitive, hunion]
  obtain ⟨-, -, grouped, -⟩ := join_grouped h
  exact ⟨h, (grouped [[int, int], [], [union [str, int], none]] rfl).trans rfl⟩

end AnnotationChecker.Ty
