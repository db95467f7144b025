import Mathlib.Logic.Relation
import AnnotationChecker.Registry
/-!
# Conformance is reachability through bases

`Registry.reaches` searches with a list of names that it has not visited. It finds the goal exactly when a
pending name leads to it (`leads_of_reaches`, `reaches_of_leads`); so conformance of two constructors is
reachability (`conforms_iff_leads`), and on all names it is reflexive and transitive, whatever the registry.
`conforms_iff_reachable` says the same of the entries themselves, without `basesOf`.
-/

namespace AnnotationChecker.Registry

variable {r : Registry}

/-! ## Names that stand for constructors -/

theorem mem_of_get? {α : Type} {t : Table α} {k : String} {v : α} (h : t.get? k = some v) : (k, v) ∈ t.entries := by
  unfold Table.get? at h
  obtain ⟨e, he, rfl⟩ := Option.map_eq_some_iff.1 h
  have hk : e.1 = k := by simpa using List.find?_some he
  exact hk ▸ List.mem_of_find?_eq_some he

theorem resolve?_mem {name c : String} {spec : ContainerSpec} (h : r.resolve? name = some (c, spec)) :
    (c, spec) ∈ r.containers.entries := by
  unfold resolve? at h
  obtain ⟨s, hs, he⟩ := Option.map_eq_some_iff.1 h
  cases he
  exact mem_of_get? hs

theorem target?_eq_some_iff {name c : String} :
    r.target? name = some c ↔ ∃ spec, r.resolve? name = some (c, spec) := by
  unfold target?
  constructor
  · intro h
    obtain ⟨⟨c, spec⟩, hs, rfl⟩ := Option.map_eq_some_iff.1 h
    exact ⟨spec, hs⟩
  · rintro ⟨spec, hs⟩
    rw [hs]; rfl

theorem target?_known {name c : String} (h : r.target? name = some c) : c ∈ r.containers.keys := by
  obtain ⟨spec, hs⟩ := target?_eq_some_iff.1 h
  exact List.mem_map.2 ⟨_, resolve?_mem hs, rfl⟩

/-- The bases of a name are what the bases of its entry stand for. -/
theorem mem_basesOf_iff {x y : String} :
    y ∈ r.basesOf x ↔ ∃ c spec, r.resolve? x = some (c, spec) ∧ ∃ b ∈ spec.bases, r.target? b = some y := by
  unfold basesOf
  cases h : r.resolve? x with
  | none => simp
  | some e =>
    obtain ⟨c, spec⟩ := e
    simp only [List.mem_filterMap, Option.some.injEq, Prod.mk.injEq]
    constructor
    · intro hb
      exact ⟨c, spec, ⟨rfl, rfl⟩, hb⟩
    · rintro ⟨_, _, ⟨rfl, rfl⟩, hb⟩
      exact hb

theorem basesOf_known {x y : String} (h : y ∈ r.basesOf x) : y ∈ r.containers.keys := by
  obtain ⟨_, _, -, _, -, hb⟩ := mem_basesOf_iff.1 h
  exact target?_known hb

/-! ## The search -/

/-- One name leads to another through any number of bases. -/
def Leads (r : Registry) : String → String → Prop := Relation.ReflTransGen fun x y => y ∈ r.basesOf x

theorem leads_of_reaches {goal : String} {unvisited pending : List String}
    (h : r.reaches goal unvisited pending = true) : ∃ c ∈ pending, r.Leads c goal := by
  fun_induction reaches r goal unvisited pending with
  | case1 => simp at h
  | case2 unvisited rest => exact ⟨goal, by simp, .refl⟩
  | case3 unvisited c rest _ _ ih =>
    obtain ⟨d, hd, hl⟩ := ih h
    rcases List.mem_append.1 hd with hd | hd
    · exact ⟨c, by simp, .head hd hl⟩
    · exact ⟨d, by simp [hd], hl⟩
  | case4 unvisited c rest _ _ ih =>
    obtain ⟨d, hd, hl⟩ := ih h
    exact ⟨d, by simp [hd], hl⟩

/-- Where a search stands: no visited name is the goal, and the bases of a visited name are pending or
visited themselves. -/
structure Searching (r : Registry) (goal : String) (unvisited pending : List String) : Prop where
  distinct : unvisited.Nodup
  known : ∀ c ∈ pending, c ∈ r.containers.keys
  missed : ∀ x ∈ r.containers.keys, x ∉ unvisited → x ≠ goal
  closed : ∀ x ∈ r.containers.keys, x ∉ unvisited → ∀ y ∈ r.basesOf x, y ∈ pending ∨ y ∉ unvisited

/-- A visited name leads to the goal only through a pending name that is not visited. -/
theorem Searching.exit {goal x : String} {unvisited pending : List String} (s : Searching r goal unvisited pending)
    (hx : x ∈ r.containers.keys) (hv : x ∉ unvisited) (hl : r.Leads x goal) :
    ∃ y ∈ pending, y ∈ unvisited ∧ r.Leads y goal := by
  induction hl using Relation.ReflTransGen.head_induction_on with
  | refl => exact absurd rfl (s.missed goal hx hv)
  | @head x y hstep hrest ih =>
    -- the first name on the way that is not visited is pending
    by_cases hy : y ∈ unvisited
    · rcases s.closed x hx hv y hstep with hp | hp
      · exact ⟨y, hp, hy, hrest⟩
      · exact absurd hy hp
    · exact ih (basesOf_known hstep) hy

/-- Visiting a name puts its bases in its place. -/
theorem Searching.visit {goal c : String} {unvisited rest : List String} (s : Searching r goal unvisited (c :: rest))
    (hc : c ≠ goal) : Searching r goal (unvisited.erase c) (r.basesOf c ++ rest) where
  distinct := s.distinct.erase c
  known x hx := by
    rcases List.mem_append.1 hx with hx | hx
    · exact basesOf_known hx
    · exact s.known x (by simp [hx])
  missed x hx hv := by
    by_cases hxc : x = c
    · exact hxc ▸ hc
    · exact s.missed x hx (fun h => hv ((List.mem_erase_of_ne hxc).2 h))
  closed x hx hv y hy := by
    by_cases hxc : x = c
    · subst hxc; exact .inl (by simp [hy])
    · rcases s.closed x hx (fun h => hv ((List.mem_erase_of_ne hxc).2 h)) y hy with hp | hp
      · rcases List.mem_cons.1 hp with rfl | hp
        · exact .inr s.distinct.not_mem_erase
        · exact .inl (by simp [hp])
      · exact .inr (fun h => hp (List.mem_of_mem_erase h))

/-- A pending name that was visited before adds nothing. -/
theorem Searching.skip {goal c : String} {unvisited rest : List String} (s : Searching r goal unvisited (c :: rest))
    (hc : c ∉ unvisited) : Searching r goal unvisited rest where
  distinct := s.distinct
  known x hx := s.known x (by simp [hx])
  missed := s.missed
  closed x hx hv y hy := by
    rcases s.closed x hx hv y hy with hp | hp
    · rcases List.mem_cons.1 hp with rfl | hp
      · exact .inr hc
      · exact .inl hp
    · exact .inr hp

theorem reaches_of_leads {goal : String} {unvisited pending : List String}
    (s : Searching r goal unvisited pending) (h : ∃ c ∈ pending, r.Leads c goal) :
    r.reaches goal unvisited pending = true := by
  fun_induction reaches r goal unvisited pending with
  | case1 => obtain ⟨c, hc, -⟩ := h; cases hc
  | case2 => rfl
  | case3 unvisited c rest hne hc ih =>
    refine ih (s.visit hne) ?_
    obtain ⟨d, hd, hl⟩ := h
    rcases List.mem_cons.1 hd with rfl | hd
    · rcases Relation.ReflTransGen.cases_head hl with he | ⟨e, he, hl⟩
      · exact absurd he hne
      · exact ⟨e, by simp [he], hl⟩
    · exact ⟨d, by simp [hd], hl⟩
  | case4 unvisited c rest hne hc ih =>
    refine ih (s.skip hc) ?_
    obtain ⟨d, hd, hl⟩ := h
    rcases List.mem_cons.1 hd with rfl | hd
    · obtain ⟨y, hy, hu, hl⟩ := s.exit (s.known d (by simp)) hc hl
      rcases List.mem_cons.1 hy with rfl | hy
      · exact absurd hu hc
      · exact ⟨y, hy, hl⟩
    · exact ⟨d, hd, hl⟩

theorem keys_nodup {α : Type} (t : Table α) : t.keys.Nodup := by
  refine (List.pairwise_map.2 t.ascending).imp (fun {a b} h he => ?_)
  exact String.lt_irrefl a (he ▸ h)

/-- Before the search no name is visited. -/
theorem searching_start {c : String} (goal : String) (hc : c ∈ r.containers.keys) :
    Searching r goal r.containers.keys [c] where
  distinct := keys_nodup _
  known x hx := by simp only [List.mem_singleton] at hx; exact hx ▸ hc
  missed x hx hv := absurd hx hv
  closed x hx hv := absurd hx hv

/-! ## Conformance -/

theorem conforms_iff_leads {sub sup c d : String} (hc : r.target? sub = some c) (hd : r.target? sup = some d) :
    r.conforms sub sup = true ↔ r.Leads c d := by
  unfold conforms
  rw [hc, hd]
  constructor
  · intro h
    obtain ⟨e, he, hl⟩ := leads_of_reaches h
    simp only [List.mem_singleton] at he
    exact he ▸ hl
  · intro hl
    exact reaches_of_leads (searching_start d (target?_known hc)) ⟨c, by simp, hl⟩

/-- A name that stands for no constructor conforms to itself only. -/
theorem conforms_iff_eq {sub sup : String} (h : r.target? sub = none ∨ r.target? sup = none) :
    r.conforms sub sup = true ↔ sub = sup := by
  unfold conforms
  rcases h with h | h
  · simp [h]
  · cases r.target? sub <;> simp [h]

theorem conforms_self (r : Registry) (c : String) : r.conforms c c = true := by
  cases h : r.target? c with
  | none => exact (conforms_iff_eq (.inl h)).2 rfl
  | some d => exact (conforms_iff_leads h h).2 .refl

theorem conforms_trans {a b c : String} (hab : r.conforms a b = true) (hbc : r.conforms b c = true) :
    r.conforms a c = true := by
  cases hb : r.target? b with
  | none =>
    rw [(conforms_iff_eq (.inr hb)).1 hab]
    exact hbc
  | some b' =>
    cases ha : r.target? a with
    | none => rwa [(conforms_iff_eq (.inl ha)).1 hab]
    | some a' =>
      cases hc : r.target? c with
      | none => rwa [← (conforms_iff_eq (.inr hc)).1 hbc]
      | some c' =>
        have h₁ := (conforms_iff_leads ha hb).1 hab
        have h₂ := (conforms_iff_leads hb hc).1 hbc
        exact (conforms_iff_leads ha hc).2 (h₁.trans h₂)

/-! ## Steps between names -/

/-- One step from a name to a base: an entry names some base, and the base stands for that constructor. -/
def Step (r : Registry) (x y : String) : Prop :=
  ∃ c spec, r.resolve? x = some (c, spec) ∧ ∃ b ∈ spec.bases, ∃ s, r.resolve? b = some (y, s)

theorem step_iff {x y : String} : r.Step x y ↔ y ∈ r.basesOf x := by
  unfold Step
  simp only [mem_basesOf_iff, target?_eq_some_iff]

theorem Step.known {x y : String} (h : r.Step x y) : y ∈ r.containers.keys := basesOf_known (step_iff.1 h)

theorem leads_iff_reachable {c d : String} : r.Leads c d ↔ Relation.ReflTransGen r.Step c d := by
  have h : r.Step = fun x y => y ∈ r.basesOf x := by
    funext x y
    exact propext step_iff
  rw [h]
  rfl

/-- **Conformance is reachability.** Two names that stand for constructors conform when the second constructor
can be reached from the first in any number of steps, whatever cycles, unknown bases and aliases there are; other
names conform to themselves only. So every name conforms to itself, and conformance is transitive. -/
theorem conforms_iff_reachable (r : Registry) :
    (∀ sub sup, r.conforms sub sup = true ↔
      match r.resolve? sub, r.resolve? sup with
      | some (c, _), some (d, _) => Relation.ReflTransGen r.Step c d
      | _, _ => sub = sup) ∧
    (∀ a, r.conforms a a = true) ∧
    ∀ a b c, r.conforms a b = true → r.conforms b c = true → r.conforms a c = true := by
  refine ⟨fun sub sup => ?_, conforms_self r, fun a b c => conforms_trans⟩
  split
  · next c s d t hsub hsup =>
    rw [conforms_iff_leads (target?_eq_some_iff.2 ⟨s, hsub⟩) (target?_eq_some_iff.2 ⟨t, hsup⟩)]
    exact leads_iff_reachable
  · next hnone =>
    apply conforms_iff_eq
    cases hsub : r.resolve? sub with
    | none => exact .inl (by rw [target?, hsub]; rfl)
    | some e =>
      cases hsup : r.resolve? sup with
      | none => exact .inr (by rw [target?, hsup]; rfl)
      | some e' => exact absurd hsup (hnone e.1 e.2 e'.1 e'.2 hsub)

end AnnotationChecker.Registry
