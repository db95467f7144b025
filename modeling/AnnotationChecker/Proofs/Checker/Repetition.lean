import AnnotationChecker.Proofs.Checker.Locality
/-!
# Checking a module again

A checker keeps its bindings, so a second check of a module starts from those that the first one left. Every name
that had a type at a statement still has it there, since the declarations of the module itself come later. Only
names that had none may have one now, so only verdicts about unresolved names change; and a third check finds for
every name what the second one found (`recheck_fixpoint`).
-/

namespace AnnotationChecker.Checker

variable {r : Registry} {ss : List Statement}

/-- The bindings that a number of checks of a module leave, one after the other. -/
def bindingsAfterChecks (r : Registry) (ss : List Statement) : (count : Nat) → Bindings
  | 0 => .empty
  | count + 1 => (check r (bindingsAfterChecks r ss count) ss).2

/-- The report of a check of a module that was checked a number of times before. -/
def reportAfterChecks (r : Registry) (ss : List Statement) (count : Nat) : Report :=
  (check r (bindingsAfterChecks r ss count) ss).1

/-! ## Bindings -/

theorem bindingsAfterChecks_succ (count : Nat) :
    bindingsAfterChecks r ss (count + 1) = (run r (bindingsAfterChecks r ss count) 0 ss).2 := rfl

/-- Every check adds the same bindings. -/
theorem toList_bindingsAfterChecks (count : Nat) :
    (bindingsAfterChecks r ss count).toList = (List.replicate count (boundBy r 0 ss)).flatten := by
  induction count with
  | zero => rfl
  | succ count ih =>
    rw [bindingsAfterChecks_succ, toList_run, ih, List.replicate_succ', List.flatten_append, List.flatten_singleton]

/-- Checks after the first one change the type of no name. -/
theorem typeOf?_bindingsAfterChecks (count : Nat) (name : String) :
    (bindingsAfterChecks r ss (count + 1)).typeOf? name = (bindingsAfterChecks r ss 1).typeOf? name := by
  induction count with
  | zero => rfl
  | succ count ih =>
    rw [bindingsAfterChecks_succ, typeOf?_run_eq_or, ih]
    exact Option.or_self

/-! ## Reports -/

theorem reportAfterChecks_getElem? (count i : Nat) :
    (reportAfterChecks r ss count).verdicts[i]? =
      ss[i]?.map (verdict r (run r (bindingsAfterChecks r ss count) 0 (ss.take i)).2 i) := by
  rw [reportAfterChecks, verdicts_check, run_getElem?]
  simp only [Nat.zero_add]

theorem verdict_congr {env env' : Bindings} {i : Nat} {s : Statement} (h : accepts r env s.kind = accepts r env' s.kind) :
    verdict r env i s = verdict r env' i s := by
  unfold verdict
  rw [h]

theorem reason_verdict {env : Bindings} {i : Nat} {s : Statement} {c : Rejection} (h : accepts r env s.kind = .error c) :
    (verdict r env i s).reason = some c.reason := by
  unfold verdict
  rw [h]
  rfl

/-- A verdict with another reason than an unresolved name stays when further names are bound before the run. -/
theorem verdict_of_reason {env : Bindings} {i : Nat} {s : Statement} {before : List Statement}
    (h : (verdict r (run r .empty 0 before).2 i s).reason ≠ some .unresolvedName) :
    verdict r (run r env 0 before).2 i s = verdict r (run r .empty 0 before).2 i s := by
  have hagree : AgreeOn (fun c => c.reason = .unresolvedName) (run r .empty 0 before).2 (run r env 0 before).2
      s.kind.mentions := by
    intro n _
    unfold typeOfName
    rw [typeOf?_run_eq_or env]
    cases (run r .empty 0 before).2.typeOf? n with
    | some t => exact .refl _
    | none => exact .inr ⟨_, rfl, rfl⟩
  rcases hagree.accepts (r := r) with heq | ⟨c, hc, hreason⟩
  · exact (verdict_congr heq).symm
  · exact absurd ((reason_verdict hc).trans (congrArg some hreason)) h

/-- Bindings that give every name the same type lead to the same verdicts. -/
theorem run_congr {env env' : Bindings} (h : ∀ name, env.typeOf? name = env'.typeOf? name) (index : Nat) :
    (run r env index ss).1 = (run r env' index ss).1 := by
  apply List.ext_getElem?
  intro i
  rw [run_getElem?, run_getElem?]
  congr 1
  funext s
  have hagree : AgreeOn (fun _ => False) (run r env index (ss.take i)).2 (run r env' index (ss.take i)).2
      s.kind.mentions := by
    intro n _
    unfold typeOfName
    rw [typeOf?_run_eq_or env, typeOf?_run_eq_or env', h]
    exact .refl _
  rcases hagree.accepts (r := r) with heq | ⟨c, -, hfalse⟩
  · exact verdict_congr heq
  · exact hfalse.elim

/-- A second check of a module differs from the first one only in verdicts that were about unresolved names, every
later one reports what the second one does, and the bindings of the first check are added once by each. -/
theorem recheck_fixpoint (r : Registry) (ss : List Statement) :
    (reportAfterChecks r ss 1).verdicts.length = (reportAfterChecks r ss 0).verdicts.length ∧
      (∀ (i : Nat) (v : Verdict), (reportAfterChecks r ss 0).verdicts[i]? = some v → v.reason ≠ some .unresolvedName →
        (reportAfterChecks r ss 1).verdicts[i]? = some v) ∧
      (∀ count, reportAfterChecks r ss (count + 1) = reportAfterChecks r ss 1) ∧
      ∀ count, (bindingsAfterChecks r ss count).toList =
        (List.replicate count (bindingsAfterChecks r ss 1).toList).flatten := by
  refine ⟨?_, ?_, ?_, ?_⟩
  · simp only [reportAfterChecks, verdicts_check, length_run]
  · intro i v hv hreason
    rw [reportAfterChecks_getElem?] at hv ⊢
    obtain ⟨s, hs, rfl⟩ := Option.map_eq_some_iff.1 hv
    rw [hs, Option.map_some, verdict_of_reason hreason]
    rfl
  · intro count
    exact congrArg Report.ofVerdicts (run_congr (typeOf?_bindingsAfterChecks count) 0)
  · intro count
    rw [toList_bindingsAfterChecks, toList_bindingsAfterChecks 1]
    simp

end AnnotationChecker.Checker
