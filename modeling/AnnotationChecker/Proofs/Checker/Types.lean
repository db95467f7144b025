import AnnotationChecker.Proofs.Checker.Bindings
import AnnotationChecker.Proofs.Expr.Induction
import AnnotationChecker.Proofs.Hint.Meaning
import AnnotationChecker.Proofs.Ty.Canonical
/-!
# The types that the checker works with

Every type that a name is bound to is canonical, and its containers are declared in the registry under their own
names and with their own variances. So are the types of expressions (`types_wellBuilt`), except that a list display
may be typed by a constructor that the registry does not know.
-/

namespace AnnotationChecker

/-- The registry declares a constructor under this name, with this variance. -/
def Registry.HasContainer (r : Registry) (ctor : String) (v : Variance) : Prop :=
  ∃ spec, r.containers.get? ctor = some spec ∧ spec.variance = v

theorem Registry.get?_of_resolve? {r : Registry} {name ctor : String} {spec : ContainerSpec}
    (h : r.resolve? name = some (ctor, spec)) : r.containers.get? ctor = some spec := by
  unfold resolve? at h
  obtain ⟨spec', hs, he⟩ := Option.map_eq_some_iff.1 h
  cases he
  exact hs

namespace Ty

/-! ## Well-built types -/

/-- A canonical type whose containers, at any depth, have admissible constructors and variances. -/
structure WellBuilt (admits : String → Variance → Prop) (t : Ty) : Prop where
  canonical : t.Canonical
  containers : ∀ c e v, .container c e v ∈ t.parts → admits c v

theorem mem_parts_of_members {p t u : Ty} (hu : u ∈ t.members) (hp : p ∈ u.parts) : p ∈ t.parts := by
  cases t with
  | union ts => exact mem_parts_of_member hu hp
  | never => cases hu
  | _ => cases List.mem_singleton.1 hu; exact hp

/-- Joining types makes no new containers. -/
theorem container_mem_parts_join {ts : List Ty} {c : String} {e : Ty} {v : Variance}
    (h : .container c e v ∈ (join ts).parts) : ∃ t ∈ ts, .container c e v ∈ t.parts := by
  have hmem : ∀ u ∈ distinct (ts.flatMap members), ∀ p ∈ u.parts, ∃ t ∈ ts, p ∈ t.parts := by
    intro u hu p hp
    obtain ⟨t, ht, hu⟩ := List.mem_flatMap.1 (mem_distinct.1 hu)
    exact ⟨t, ht, mem_parts_of_members hu hp⟩
  unfold join at h
  generalize distinct (ts.flatMap members) = us at h hmem
  match us with
  | [] => simp [ofMembers, parts] at h
  | [u] => exact hmem u (by simp) _ h
  | u :: w :: us =>
    simp only [ofMembers, parts, List.mem_cons, reduceCtorEq, false_or] at h
    obtain ⟨x, hx, hp⟩ := mem_partsList.1 h
    exact hmem x hx _ hp

namespace WellBuilt

variable {admits : String → Variance → Prop}

theorem primitive (k : Primitive) : WellBuilt admits (.primitive k) :=
  ⟨.primitive k, by simp [parts]⟩

theorem literal (v : Literal) : WellBuilt admits (.literal v) :=
  ⟨.literal v, by simp [parts]⟩

theorem never : WellBuilt admits .never :=
  ⟨.never, by simp [parts]⟩

theorem join {ts : List Ty} (h : ∀ t ∈ ts, WellBuilt admits t) : WellBuilt admits (join ts) where
  canonical := .join fun t ht => (h t ht).canonical
  containers c e v he := by
    obtain ⟨t, ht, hp⟩ := container_mem_parts_join he
    exact (h t ht).containers c e v hp

theorem container {c : String} {e : Ty} {v : Variance} (hc : admits c v) (he : WellBuilt admits e) :
    WellBuilt admits (.container c e v) where
  canonical := .container c v he.canonical
  containers d f w hf := by
    simp only [parts, List.mem_cons, Ty.container.injEq] at hf
    rcases hf with ⟨rfl, -, rfl⟩ | hf
    · exact hc
    · exact he.containers d f w hf

theorem callable {ps : List Ty} {t : Ty} (hps : ∀ p ∈ ps, WellBuilt admits p) (ht : WellBuilt admits t) :
    WellBuilt admits (.callable ps t) where
  canonical := .callable (fun p hp => (hps p hp).canonical) ht.canonical
  containers c e v he := by
    simp only [parts, List.mem_cons, reduceCtorEq, List.mem_append, false_or] at he
    rcases he with he | he
    · obtain ⟨p, hp, he⟩ := mem_partsList.1 he
      exact (hps p hp).containers c e v he
    · exact ht.containers c e v he

theorem ret {ps : List Ty} {t : Ty} (h : WellBuilt admits (.callable ps t)) : WellBuilt admits t where
  canonical := by cases h.canonical; assumption
  containers c e v he := h.containers c e v (mem_parts_of_ret he)

theorem member {ts : List Ty} (h : WellBuilt admits (.union ts)) {t : Ty} (ht : t ∈ ts) : WellBuilt admits t where
  canonical := (h.canonical.of_mem_members ht).2
  containers c e v he := h.containers c e v (mem_parts_of_member ht he)

theorem widen {t : Ty} (h : WellBuilt admits t) : WellBuilt admits t.widen := by
  induction t using inductionOn with
  | literal v => exact primitive v.kind
  | union ts ih =>
    rw [Ty.widen, widenList_eq_map]
    exact join (List.forall_mem_map.2 fun t ht => ih t ht (h.member ht))
  | _ => exact h

theorem mono {admits' : String → Variance → Prop} {t : Ty} (h : WellBuilt admits t)
    (hle : ∀ c v, admits c v → admits' c v) : WellBuilt admits' t :=
  ⟨h.canonical, fun c e v he => hle c v (h.containers c e v he)⟩

end WellBuilt

end Ty

namespace Checker

open Ty (WellBuilt)

variable {r : Registry} {env : Bindings}

/-! ## Bindings -/

theorem inherited_wellBuilt (r : Registry) : Hint.Inherited r (WellBuilt r.HasContainer) where
  primitive := .primitive
  literal := .literal
  never := .never
  join := .join
  callable := .callable
  container hr := .container ⟨_, Registry.get?_of_resolve? hr, rfl⟩

theorem wellBuilt_of_binds {index : Nat} {k : StatementKind} {b : Binding} (h : Binds r index k b) :
    WellBuilt r.HasContainer b.ty := by
  cases h with
  | «variable» ht => exact (inherited_wellBuilt r).meaning ht
  | function hps ht =>
    refine .callable (fun t hmem => ?_) ((inherited_wellBuilt r).meaning ht)
    obtain ⟨i, hi, rfl⟩ := List.getElem_of_mem hmem
    exact (inherited_wellBuilt r).meaning (List.forall₂_iff_get.1 hps |>.2 i (hps.length_eq ▸ hi) hi)

/-- All names are bound to canonical types, with containers of the registry. -/
def WellBuiltBindings (r : Registry) (env : Bindings) : Prop := ∀ b ∈ env.toList, WellBuilt r.HasContainer b.ty

theorem wellBuiltBindings_run (h : WellBuiltBindings r env) (index : Nat) (ss : List Statement) :
    WellBuiltBindings r (run r env index ss).2 := by
  intro b hb
  rw [toList_run, List.mem_append] at hb
  rcases hb with hb | hb
  · exact h b hb
  · obtain ⟨i, s, -, hs⟩ := mem_boundBy.1 hb
    exact wellBuilt_of_binds hs

/-- The bindings that are left when modules were checked one after the other. -/
def bindingsAfterModules (r : Registry) (modules : List (List Statement)) : Bindings :=
  modules.foldl (fun env ss => (check r env ss).2) .empty

theorem wellBuiltBindings_modules (modules : List (List Statement)) :
    WellBuiltBindings r (bindingsAfterModules r modules) := by
  unfold bindingsAfterModules
  refine List.foldlRecOn modules _ (by simp [WellBuiltBindings]) ?_
  intro env h ss _
  exact wellBuiltBindings_run h 0 ss

/-! ## Expressions -/

theorem exists_binding {name : String} {t : Ty} (h : env.typeOf? name = some t) : ∃ b ∈ env.toList, b.ty = t := by
  unfold Bindings.typeOf? at h
  rw [lookup_eq_find?] at h
  obtain ⟨b, hb, rfl⟩ := Option.map_eq_some_iff.1 h
  exact ⟨b, List.mem_reverse.1 (List.mem_of_find?_eq_some hb), rfl⟩

section

variable {admits : String → Variance → Prop}

theorem wellBuilt_listOf (hd : ∀ ctor v, (∀ t, listOf r t = .container ctor t v) → admits ctor v) {t : Ty}
    (ht : WellBuilt admits t) : WellBuilt admits (listOf r t) := by
  unfold listOf at hd ⊢
  cases hr : r.resolve? r.listDisplay with
  | none => exact .container (hd _ _ fun t => by rw [hr]) ht
  | some e => exact .container (hd _ _ fun t => by rw [hr]) ht

/-- Expressions have well-built types when all names have and the constructor of list displays is admissible. -/
theorem wellBuilt_infer (hd : ∀ ctor v, (∀ t, listOf r t = .container ctor t v) → admits ctor v)
    (henv : ∀ b ∈ env.toList, WellBuilt admits b.ty) {e : Expr} {t : Ty} (h : infer r env e = .ok t) :
    WellBuilt admits t := by
  have hname : ∀ {name u}, env.typeOf? name = some u → WellBuilt admits u := by
    intro name u hu
    obtain ⟨b, hb, rfl⟩ := exists_binding hu
    exact henv b hb
  induction e using Expr.inductionOn generalizing t with
  | int s v | str s v | bool s v => cases h; exact .literal _
  | float s v | bytes s v | formatted s v | none s => cases h; exact .primitive _
  | name s n => exact hname (typeOfName_eq_ok.1 h)
  | list s items ih =>
    obtain ⟨ts, hts, rfl⟩ := infer_list_eq_ok.1 h
    refine wellBuilt_listOf hd (.join (List.forall_mem_map.2 fun u hu => ?_))
    obtain ⟨i, hi, rfl⟩ := List.getElem_of_mem hu
    have hitems := inferAll_eq_ok.1 hts
    exact (ih _ (List.getElem_mem _) (List.forall₂_iff_get.1 hitems |>.2 i (hitems.length_eq ▸ hi) hi)).widen
  | call s f args ih =>
    rw [infer] at h
    obtain ⟨params, found, hf, -, -⟩ := apply_eq_ok.1 h
    exact (hname hf).ret

end

/-- Whatever modules were checked and whatever statements of a further one, all types that names are bound to are
canonical and declared in the registry. The types of expressions are canonical too, and they are declared in the
registry if the constructor of list displays is. -/
theorem types_wellBuilt (r : Registry) (modules : List (List Statement)) (before : List Statement) :
    (∀ b ∈ (run r (bindingsAfterModules r modules) 0 before).2.toList,
      b.ty.normalized = b.ty ∧ ∀ c e v, .container c e v ∈ b.ty.parts → r.HasContainer c v) ∧
      ∀ e t, infer r (run r (bindingsAfterModules r modules) 0 before).2 e = .ok t →
        t.normalized = t ∧
          ((r.resolve? r.listDisplay).isSome → ∀ c e v, .container c e v ∈ t.parts → r.HasContainer c v) := by
  have henv := wellBuiltBindings_run (wellBuiltBindings_modules (r := r) modules) 0 before
  refine ⟨fun b hb => ⟨(henv b hb).canonical.normalized_eq, (henv b hb).containers⟩, fun e t ht => ⟨?_, fun hr => ?_⟩⟩
  · -- without a condition on containers, it does not matter what types list displays
    have hany : WellBuilt (fun _ _ => True) t :=
      wellBuilt_infer (fun _ _ _ => trivial) (fun b hb => (henv b hb).mono fun _ _ _ => trivial) ht
    exact hany.canonical.normalized_eq
  · obtain ⟨⟨ctor, spec⟩, hspec⟩ := Option.isSome_iff_exists.1 hr
    have hdisplay : ∀ c v, (∀ t, listOf r t = .container c t v) → r.HasContainer c v := by
      intro c v h
      have hc := h .never
      unfold listOf at hc
      rw [hspec] at hc
      cases hc
      exact ⟨spec, Registry.get?_of_resolve? hspec, rfl⟩
    exact (wellBuilt_infer hdisplay henv ht).containers

end Checker

end AnnotationChecker
