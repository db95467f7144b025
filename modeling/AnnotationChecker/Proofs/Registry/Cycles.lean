import Mathlib.Data.List.Perm.Subperm
import AnnotationChecker.Proofs.Registry.Conformance
/-!
# The search for cycles is exact

A registry that is wired up, with nothing missing, is valid exactly when no constructor is reached from itself;
if it is not, the fault names a constructor on a cycle (`validate_iff_acyclic`). What the search knows of the names
that are done is `Settled`; what it gives from there is `Explored`, and the path it came by leads to the name at
hand (`explored_follow`). So in a valid registry two constructors that conform to each other are the same one.
-/

namespace AnnotationChecker.Registry

open Relation

variable {r : Registry}

/-! ## Registries without a cycle -/

/-- A name is reached from itself in one step or more. -/
def OnCycle (r : Registry) (c : String) : Prop := TransGen r.Step c c

/-- No constructor is reached from itself. -/
def Acyclic (r : Registry) : Prop := ∀ c ∈ r.containers.keys, ¬ r.OnCycle c

/-- Nothing is missing: the bases and the constructor of list displays stand for constructors, and other names are
names of constructors. -/
structure Wired (r : Registry) : Prop where
  bases : ∀ e ∈ r.containers.entries, ∀ b ∈ e.2.bases, r.resolve? b ≠ none
  targets : ∀ e ∈ r.aliases.entries, r.containers.get? e.2 ≠ none
  display : r.resolve? r.listDisplay ≠ none

theorem OnCycle.known {c : String} (h : r.OnCycle c) : c ∈ r.containers.keys := by
  cases h with
  | single h => exact h.known
  | tail _ h => exact h.known

/-! ## What the search knows -/

/-- Names that are done: all that they lead to is done too, and none of them is on a cycle. -/
structure Settled (r : Registry) (done : List String) : Prop where
  closed : ∀ x ∈ done, ∀ y, r.Step x y → y ∈ done
  off : ∀ x ∈ done, ¬ r.OnCycle x

theorem settled_nil : Settled r [] := ⟨by simp, by simp⟩

theorem Settled.mem_of_reachable {done : List String} (s : Settled r done) {x y : String} (hx : x ∈ done)
    (h : ReflTransGen r.Step x y) : y ∈ done := by
  induction h with
  | refl => exact hx
  | tail _ hstep ih => exact s.closed _ ih _ hstep

/-- A name is done once all its bases are. -/
theorem Settled.cons {done : List String} {c : String} (s : Settled r done) (hb : ∀ y ∈ r.basesOf c, y ∈ done) :
    Settled r (c :: done) where
  closed x hx y hy := by
    rcases List.mem_cons.1 hx with rfl | hx
    · exact List.mem_cons_of_mem _ (hb y (step_iff.1 hy))
    · exact List.mem_cons_of_mem _ (s.closed x hx y hy)
  off x hx hcycle := by
    rcases List.mem_cons.1 hx with rfl | hx
    · -- the way round comes back to the name from a base, so the name was done before
      obtain ⟨y, hy, hback⟩ := TransGen.head'_iff.1 hcycle
      exact s.off x (s.mem_of_reachable (hb y (step_iff.1 hy)) hback) hcycle
    · exact s.off x hx hcycle

/-- What following some names gives: either these are done as well, or there is a cycle. -/
def Explored (r : Registry) (done names : List String) : Except Fault (List String) → Prop
  | .ok done' => Settled r done' ∧ (∀ x ∈ done, x ∈ done') ∧ ∀ c ∈ names, c ∈ done'
  | .error f => ∃ c, f = .cycle c ∧ r.OnCycle c

/-- Following names one after the other, each from what is done before it. -/
theorem explored_foldlM {follow : List String → String → Except Fault (List String)} {names done : List String}
    (s : Settled r done) (h : ∀ c ∈ names, ∀ done, Settled r done → Explored r done [c] (follow done c)) :
    Explored r done names (names.foldlM follow done) := by
  induction names generalizing done with
  | nil => exact ⟨s, fun x hx => hx, by simp⟩
  | cons c names ih =>
    have hc := h c (by simp) done s
    rw [List.foldlM_cons]
    cases hf : follow done c with
    | error f =>
      rw [hf] at hc
      exact hc
    | ok done₁ =>
      rw [hf] at hc
      obtain ⟨s₁, hsub, hmem⟩ := hc
      have hrest := ih s₁ fun d hd => h d (List.mem_cons_of_mem _ hd)
      show Explored r done (c :: names) (names.foldlM follow done₁)
      cases hr : names.foldlM follow done₁ with
      | error f =>
        rw [hr] at hrest
        exact hrest
      | ok done₂ =>
        rw [hr] at hrest
        obtain ⟨s₂, hsub₂, hmem₂⟩ := hrest
        refine ⟨s₂, fun x hx => hsub₂ x (hsub x hx), ?_⟩
        exact List.forall_mem_cons.2 ⟨hsub₂ c (hmem c (by simp)), hmem₂⟩

/-! ## The search -/

/-- Where the search stands: the path holds constructors, each of them once, and every one of them leads to the name
that is followed next. -/
structure OnPath (r : Registry) (path : List String) (c : String) : Prop where
  distinct : path.Nodup
  known : ∀ x ∈ path, x ∈ r.containers.keys
  leads : ∀ x ∈ path, TransGen r.Step x c

/-- There is room for one more name on a path. -/
theorem OnPath.length_lt {path : List String} {c : String} (p : OnPath r path c) (hc : c ∈ r.containers.keys)
    (hp : c ∉ path) : path.length < r.containers.keys.length := by
  have hsub : ∀ x ∈ c :: path, x ∈ r.containers.keys := List.forall_mem_cons.2 ⟨hc, p.known⟩
  have hle := ((List.nodup_cons.2 ⟨hp, p.distinct⟩).subperm hsub).length_le
  rwa [List.length_cons] at hle

/-- The path goes on with a base. -/
theorem OnPath.step {path : List String} {b c : String} (p : OnPath r path c) (hc : c ∈ r.containers.keys)
    (hp : c ∉ path) (hb : r.Step c b) : OnPath r (c :: path) b where
  distinct := List.nodup_cons.2 ⟨hp, p.distinct⟩
  known := List.forall_mem_cons.2 ⟨hc, p.known⟩
  leads := List.forall_mem_cons.2 ⟨.single hb, fun x hx => (p.leads x hx).tail hb⟩

/-- The room never runs out: with each name on the path there is one less of both. -/
theorem explored_follow {room : Nat} {path done : List String} {c : String} (s : Settled r done)
    (hc : c ∈ r.containers.keys) (p : OnPath r path c) (hroom : r.containers.keys.length < path.length + room) :
    Explored r done [c] (r.follow room path done c) := by
  induction room generalizing path done c with
  | zero =>
    -- a path as long as that would hold a constructor twice
    exfalso
    by_cases hp : c ∈ path
    · have := (p.distinct.subperm p.known).length_le
      omega
    · have := p.length_lt hc hp
      omega
  | succ room ih =>
    rw [follow]
    by_cases hd : c ∈ done
    · rw [if_pos hd]
      exact ⟨s, fun x hx => hx, by simpa using hd⟩
    · rw [if_neg hd]
      by_cases hp : c ∈ path
      · rw [if_pos hp]
        exact ⟨c, rfl, p.leads c hp⟩
      · rw [if_neg hp]
        have hbases : Explored r done (r.basesOf c)
            ((r.basesOf c).foldlM (fun done b => r.follow room (c :: path) done b) done) := by
          refine explored_foldlM s fun b hb done s => ?_
          exact ih s (basesOf_known hb) (p.step hc hp (step_iff.2 hb)) (by rw [List.length_cons]; omega)
        cases hf : (r.basesOf c).foldlM (fun done b => r.follow room (c :: path) done b) done with
        | error f =>
          rw [hf] at hbases
          exact hbases
        | ok done' =>
          rw [hf] at hbases
          obtain ⟨s', hsub, hmem⟩ := hbases
          exact ⟨s'.cons hmem, fun x hx => List.mem_cons_of_mem _ (hsub x hx), by simp⟩

/-- The whole search passes a registry without a cycle, and names a constructor on one otherwise. -/
theorem checkAcyclic_cases (r : Registry) :
    r.checkAcyclic = .ok () ∧ r.Acyclic ∨ ∃ c, r.checkAcyclic = .error (.cycle c) ∧ r.OnCycle c := by
  have hroots : Explored r [] r.containers.keys
      (r.containers.keys.foldlM (fun done c => r.follow (r.containers.keys.length + 1) [] done c) []) := by
    refine explored_foldlM settled_nil fun c hc done s => ?_
    exact explored_follow s hc ⟨.nil, by simp, by simp⟩ (by simp)
  unfold checkAcyclic
  cases hf : r.containers.keys.foldlM (fun done c => r.follow (r.containers.keys.length + 1) [] done c) [] with
  | error f =>
    rw [hf] at hroots
    obtain ⟨c, rfl, hcycle⟩ := hroots
    exact .inr ⟨c, rfl, hcycle⟩
  | ok done =>
    rw [hf] at hroots
    obtain ⟨s, -, hmem⟩ := hroots
    exact .inl ⟨rfl, fun c hc => s.off c (hmem c hc)⟩

/-! ## Validity -/

theorem unknownBase?_eq_none_iff :
    r.unknownBase? = none ↔ ∀ e ∈ r.containers.entries, ∀ b ∈ e.2.bases, r.resolve? b ≠ none := by
  unfold unknownBase?
  simp [List.findSome?_eq_none_iff, List.find?_eq_none]

theorem unknownTarget?_eq_none_iff :
    r.unknownTarget? = none ↔ ∀ e ∈ r.aliases.entries, r.containers.get? e.2 ≠ none := by
  unfold unknownTarget?
  simp [List.findSome?_eq_none_iff]

theorem missingListDisplay?_eq_none_iff : r.missingListDisplay? = none ↔ r.resolve? r.listDisplay ≠ none := by
  unfold missingListDisplay?
  simp

theorem validate_of_wired (h : r.Wired) : r.validate = r.checkAcyclic := by
  unfold validate
  rw [unknownBase?_eq_none_iff.2 h.bases, unknownTarget?_eq_none_iff.2 h.targets,
    missingListDisplay?_eq_none_iff.2 h.display]

theorem wired_of_validate (h : r.validate = .ok ()) : r.Wired := by
  unfold validate at h
  split at h
  · cases h
  · next hb =>
    split at h
    · cases h
    · next ht =>
      split at h
      · cases h
      · next hd =>
        exact ⟨unknownBase?_eq_none_iff.1 hb, unknownTarget?_eq_none_iff.1 ht, missingListDisplay?_eq_none_iff.1 hd⟩

theorem validate_eq_ok_iff (h : r.Wired) : r.validate = .ok () ↔ r.Acyclic := by
  rw [validate_of_wired h]
  rcases checkAcyclic_cases r with ⟨hok, hacyclic⟩ | ⟨c, herr, hcycle⟩
  · simp [hok, hacyclic]
  · constructor
    · intro hok
      rw [herr] at hok
      cases hok
    · intro hacyclic
      exact absurd hcycle (hacyclic c hcycle.known)

/-- Without a cycle, constructors that conform to each other are the same one. -/
theorem eq_of_conforms (h : r.Acyclic) {a b c d : String} (hc : r.target? a = some c) (hd : r.target? b = some d)
    (hab : r.conforms a b = true) (hba : r.conforms b a = true) : c = d := by
  have hcd := leads_iff_reachable.1 ((conforms_iff_leads hc hd).1 hab)
  have hdc := leads_iff_reachable.1 ((conforms_iff_leads hd hc).1 hba)
  rcases reflTransGen_iff_eq_or_transGen.1 hcd with he | hcd
  · exact he.symm
  · exact absurd (hcd.trans_left hdc) (h c (target?_known hc))

/-- **The search for cycles is exact.** A registry with nothing missing is valid exactly when no constructor is
reached from itself, and otherwise the fault names a constructor that is. In a valid registry, names that conform to
each other stand for the same constructor. -/
theorem validate_iff_acyclic (r : Registry) :
    (r.Wired → (r.validate = .ok () ↔ r.Acyclic) ∧
      (r.validate ≠ .ok () → ∃ c ∈ r.containers.keys, r.validate = .error (.cycle c) ∧ r.OnCycle c)) ∧
    (r.validate = .ok () → ∀ a b c d s t, r.resolve? a = some (c, s) → r.resolve? b = some (d, t) →
      r.conforms a b = true → r.conforms b a = true → c = d) := by
  constructor
  · intro hw
    refine ⟨validate_eq_ok_iff hw, fun hne => ?_⟩
    rw [validate_of_wired hw] at hne ⊢
    rcases checkAcyclic_cases r with ⟨hok, -⟩ | ⟨c, herr, hcycle⟩
    · exact absurd hok hne
    · exact ⟨c, hcycle.known, herr, hcycle⟩
  · intro hvalid a b c d s t ha hb hab hba
    have hacyclic := (validate_eq_ok_iff (wired_of_validate hvalid)).1 hvalid
    exact eq_of_conforms hacyclic (target?_eq_some_iff.2 ⟨s, ha⟩) (target?_eq_some_iff.2 ⟨t, hb⟩) hab hba

/-- Two constructors, each a base of the other, one of them under another name. -/
def looped : Registry where
  containers := .ofList [("Box", ⟨.covariant, ["Crate"]⟩), ("Case", ⟨.invariant, ["Box"]⟩)]
  aliases := .ofList [("Crate", "Case")]
  listDisplay := "Crate"

theorem validate_iff_acyclic_looped :
    looped.Wired ∧ looped.validate = .error (.cycle "Box") ∧
      ∃ c, looped.validate = .error (.cycle c) ∧ looped.OnCycle c := by
  have hw : looped.Wired := ⟨by decide +kernel, by decide +kernel, by decide +kernel⟩
  have hfault : looped.validate = .error (.cycle "Box") := by decide +kernel
  refine ⟨hw, hfault, ?_⟩
  obtain ⟨c, -, herr, hcycle⟩ := ((validate_iff_acyclic looped).1 hw).2 (by rw [hfault]; nofun)
  exact ⟨c, herr, hcycle⟩

end AnnotationChecker.Registry
