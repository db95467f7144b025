import Mathlib.Data.List.Nodup
import AnnotationChecker.Proofs.Hint.Meaning
import AnnotationChecker.Proofs.Registry.Cycles
/-!
# When a constructor stands for itself

Looking a name up follows one alias, whatever the name is. So the constructor that a name stands for is looked up
through an alias again when it is one itself, and then another entry is found. In a valid registry no name is affected
exactly when no alias leads to another one (`resolve?_canonical`); a container then has the variance and the bases of
one entry.
-/

namespace AnnotationChecker.Registry

variable {r : Registry}

theorem get?_of_mem {α : Type} {t : Table α} {k : String} {v : α} (h : (k, v) ∈ t.entries) : t.get? k = some v := by
  have hdistinct : (t.entries.map Prod.fst).Nodup := keys_nodup t
  cases hfind : t.entries.find? fun e => e.1 == k with
  | none =>
    have hk := List.find?_eq_none.1 hfind (k, v) h
    simp at hk
  | some e =>
    have hk : e.1 = k := by simpa using List.find?_some hfind
    have he : e = (k, v) := List.inj_on_of_nodup_map hdistinct (List.mem_of_find?_eq_some hfind) h hk
    simp [Table.get?, hfind, he]

/-- No alias leads to an alias for something else. -/
def Unchained (r : Registry) : Prop := ∀ e ∈ r.aliases.entries, (r.aliases.get? e.2).getD e.2 = e.2

/-- The constructor that a name stands for is looked up as itself unless it is an alias. -/
theorem resolve?_resolved_iff {n c : String} {spec : ContainerSpec} (h : r.resolve? n = some (c, spec)) :
    r.resolve? c = some (c, spec) ↔ (r.aliases.get? c).getD c = c := by
  unfold resolve? at h ⊢
  obtain ⟨s, hs, he⟩ := Option.map_eq_some_iff.1 h
  obtain ⟨rfl, rfl⟩ := Prod.mk.inj he
  dsimp only at hs ⊢
  constructor
  · intro hc
    obtain ⟨t, -, ht⟩ := Option.map_eq_some_iff.1 hc
    exact (Prod.mk.inj ht).1
  · intro hc
    rw [hc, hs]
    rfl

/-- Without chains of aliases, a constructor is looked up as itself, whether the registry is valid or not. -/
theorem resolve?_resolved (hu : r.Unchained) {n c : String} {spec : ContainerSpec}
    (h : r.resolve? n = some (c, spec)) : r.resolve? c = some (c, spec) := by
  refine (resolve?_resolved_iff h).2 ?_
  obtain ⟨s, -, he⟩ := Option.map_eq_some_iff.1 h
  obtain ⟨rfl, rfl⟩ := Prod.mk.inj he
  cases hn : r.aliases.get? n with
  | none => simp [hn]
  | some target => exact hu (n, target) (mem_of_get? hn)

/-- A constructor that is looked up as itself has the bases of its entry. -/
theorem basesOf_resolved {c : String} {spec : ContainerSpec} (h : r.resolve? c = some (c, spec)) :
    r.basesOf c = spec.bases.filterMap r.target? := by
  unfold basesOf
  rw [h]

/-- The targets of aliases are constructors, so a chain of aliases shows at its first one. -/
theorem unchained_of_resolved (ht : ∀ e ∈ r.aliases.entries, r.containers.get? e.2 ≠ none)
    (h : ∀ n c spec, r.resolve? n = some (c, spec) → r.resolve? c = some (c, spec)) : r.Unchained := by
  intro e he
  obtain ⟨spec, hspec⟩ := Option.ne_none_iff_exists'.1 (ht e he)
  have hresolve : r.resolve? e.1 = some (e.2, spec) := by
    unfold resolve?
    simp [get?_of_mem he, hspec]
  exact (resolve?_resolved_iff hresolve).1 (h e.1 e.2 spec hresolve)

/-- **In a valid registry, names stand for canonical constructors exactly when no alias leads to another one.** A
container that a hint builds then has the variance of the entry whose bases conformance and the search for cycles
follow. -/
theorem resolve?_canonical (hvalid : r.validate = .ok ()) :
    (r.Unchained ↔ ∀ n c spec, r.resolve? n = some (c, spec) → r.resolve? c = some (c, spec)) ∧
    (r.Unchained → ∀ s base arg t c spec, Hint.Form.ofBase (Hint.stripModule base) = .generic →
      r.resolve? (Hint.stripModule base) = some (c, spec) → Hint.meaning r arg = .ok t →
      Hint.meaning r (.subscript s base [arg]) = .ok (.container c t spec.variance) ∧
        r.basesOf c = spec.bases.filterMap r.target?) := by
  refine ⟨⟨fun hu n c spec => resolve?_resolved hu, unchained_of_resolved (wired_of_validate hvalid).targets⟩, ?_⟩
  intro hu s base arg t c spec hform hresolve hmeaning
  refine ⟨?_, basesOf_resolved (resolve?_resolved hu hresolve)⟩
  rw [Hint.meaning_generic hform hresolve, hmeaning]
  rfl

/-- In the registry that is used when none is given, every name stands for a constructor that stands for itself. -/
theorem resolve?_canonical_builtin : builtin.validate = .ok () ∧ builtin.Unchained ∧
    ∀ n c spec, builtin.resolve? n = some (c, spec) → builtin.resolve? c = some (c, spec) := by
  have hvalid : builtin.validate = .ok () := by decide +kernel
  have hu : builtin.Unchained := by unfold Unchained; decide +kernel
  exact ⟨hvalid, hu, (resolve?_canonical hvalid).1.1 hu⟩

/-- A constructor whose name is an alias for another constructor, and an alias for it. -/
def shadowed : Registry where
  containers := .ofList [("Base", ⟨.covariant, []⟩), ("Box", ⟨.covariant, ["Base"]⟩), ("Case", ⟨.invariant, []⟩)]
  aliases := .ofList [("Box", "Case"), ("Crate", "Box")]
  listDisplay := "Case"

/-- The registry is valid, and a hint builds a covariant `Box`; but `Box` is looked up as an invariant `Case`, and so
it does not conform to its own base. -/
theorem shadowed_not_canonical : shadowed.validate = .ok () ∧
    shadowed.resolve? "Crate" = some ("Box", ⟨.covariant, ["Base"]⟩) ∧
    shadowed.resolve? "Box" = some ("Case", ⟨.invariant, []⟩) ∧
    (∀ s, Hint.meaning shadowed (.subscript s "Crate" [.const s .none]) = .ok (.container "Box" Ty.none .covariant)) ∧
    shadowed.conforms "Crate" "Base" = false := by
  refine ⟨by decide +kernel, by decide +kernel, by decide +kernel, fun s => ?_, ?_⟩
  · have hform : Hint.Form.ofBase (Hint.stripModule "Crate") = .generic := by decide +kernel
    have hresolve : shadowed.resolve? (Hint.stripModule "Crate") = some ("Box", ⟨.covariant, ["Base"]⟩) := by
      decide +kernel
    rw [Hint.meaning_generic hform hresolve]
    rfl
  · have hcrate : shadowed.target? "Crate" = some "Box" := by decide +kernel
    have hbase : shadowed.target? "Base" = some "Base" := by decide +kernel
    have hnone : shadowed.basesOf "Box" = [] := by decide +kernel
    rw [← Bool.not_eq_true, conforms_iff_leads hcrate hbase]
    intro hleads
    rcases Relation.ReflTransGen.cases_head hleads with he | ⟨d, hd, -⟩
    · exact absurd he (by decide)
    · simp [hnone] at hd

end AnnotationChecker.Registry
