import Mathlib.Data.List.Nodup
import AnnotationChecker.Proofs.Report
import AnnotationChecker.Verdict.Json
/-!
# Reports do not depend on the order of recording

A report holds the verdicts that were recorded, in the order of their indexes, and those for one index in the order in
which they were recorded (`filter_ofVerdicts`). So it has a verdict for just the indexes that occur
(`get?_isSome_iff`), and where no index occurs twice the order of recording does not matter (`ofVerdicts_congr`).
-/

namespace AnnotationChecker.Report

variable {vs ws : List Verdict} {i : Nat}

/-! ## Sorting -/

theorem perm_ofVerdicts (vs : List Verdict) : (ofVerdicts vs).verdicts.Perm vs := List.mergeSort_perm vs _

/-! The order that reports are sorted by. -/

theorem index_le_trans (u v w : Verdict) (huv : decide (u.index ≤ v.index) = true)
    (hvw : decide (v.index ≤ w.index) = true) : decide (u.index ≤ w.index) = true :=
  decide_eq_true (Nat.le_trans (of_decide_eq_true huv) (of_decide_eq_true hvw))

theorem index_le_total (v w : Verdict) : (decide (v.index ≤ w.index) || decide (w.index ≤ v.index)) = true := by
  rcases Nat.le_total v.index w.index with h | h <;> simp [h]

theorem inOrder_ofVerdicts (vs : List Verdict) : InOrder (ofVerdicts vs).verdicts :=
  (List.pairwise_mergeSort index_le_trans index_le_total vs).imp of_decide_eq_true

/-- Verdicts that stand in order already are not moved past each other. -/
theorem sublist_ofVerdicts (h : InOrder ws) (hsub : ws.Sublist vs) : ws.Sublist (ofVerdicts vs).verdicts :=
  List.sublist_mergeSort index_le_trans index_le_total (h.imp decide_eq_true) hsub

/-- The verdicts for one index stay in the order in which they were recorded. -/
theorem filter_ofVerdicts (vs : List Verdict) (i : Nat) :
    (ofVerdicts vs).verdicts.filter (fun v => v.index = i) = vs.filter fun v => v.index = i := by
  have horder : InOrder (vs.filter fun v => v.index = i) := by
    refine List.pairwise_of_forall_mem_list fun v hv w hw => ?_
    have hv : v.index = i := by simpa using (List.mem_filter.1 hv).2
    have hw : w.index = i := by simpa using (List.mem_filter.1 hw).2
    exact Nat.le_of_eq (hv.trans hw.symm)
  have hsub : (vs.filter fun v => v.index = i).Sublist ((ofVerdicts vs).verdicts.filter fun v => v.index = i) := by
    have hkept := (sublist_ofVerdicts horder List.filter_sublist).filter fun v => v.index = i
    simpa only [List.filter_filter, Bool.and_self] using hkept
  -- nothing else is there, since a report only rearranges what was recorded
  exact (hsub.eq_of_length ((perm_ofVerdicts vs).filter _).length_eq.symm).symm

/-! ## Looking a verdict up -/

theorem mem_of_get? {r : Report} {v : Verdict} (h : r.get? i = some v) : v ∈ r.verdicts ∧ v.index = i := by
  unfold get? at h
  obtain ⟨hv, hi⟩ := Option.filter_eq_some_iff.1 h
  exact ⟨List.mem_of_getElem? hv, by simpa using hi⟩

/-- A report in order finds a verdict wherever there is one. -/
theorem get?_isSome_iff {r : Report} (h : InOrder r.verdicts) :
    (r.get? i).isSome = true ↔ ∃ v ∈ r.verdicts, v.index = i := by
  constructor
  · intro hsome
    obtain ⟨v, hv⟩ := Option.isSome_iff_exists.1 hsome
    exact ⟨v, mem_of_get? hv⟩
  · rintro ⟨v, hv, rfl⟩
    obtain ⟨k, hk⟩ := List.getElem?_of_mem hv
    obtain ⟨hlt, -⟩ := List.getElem?_eq_some_iff.1 hk
    obtain ⟨-, hin, hat, hbehind⟩ := seek_spec v.index 0 h (Nat.zero_lt_of_lt hlt) (Nat.le_of_eq (Nat.zero_add _))
    rw [Nat.zero_add] at hin hbehind
    unfold get?
    generalize seek r.verdicts v.index 0 r.verdicts.length = p at *
    obtain ⟨w, hw⟩ : ∃ w, r.verdicts[p]? = some w := ⟨_, List.getElem?_eq_getElem hin⟩
    -- the place that halving leaves is not before this verdict, and its index is no other one
    have hle : k ≤ p := Nat.not_lt.1 fun hkp => Nat.lt_irrefl _ (hbehind k v hkp hlt hk)
    have hindex : w.index = v.index := by
      rcases hat w hw with hno | rfl
      · exact Nat.le_antisymm hno (h.le hle hk hw)
      · obtain rfl := Nat.le_zero.1 hle
        rw [Option.some.inj (hw.symm.trans hk)]
    rw [hw, Option.filter_some, if_pos (by simpa using hindex)]
    rfl

/-! ## Orders of recording -/

/-- Where no index occurs twice there is only one order to report the verdicts in. -/
theorem ofVerdicts_congr (h : vs.Perm ws) (hdistinct : (vs.map Verdict.index).Nodup) : ofVerdicts vs = ofVerdicts ws := by
  have hperm : (ofVerdicts vs).verdicts.Perm (ofVerdicts ws).verdicts :=
    (perm_ofVerdicts vs).trans (h.trans (perm_ofVerdicts ws).symm)
  have hsame : (ofVerdicts vs).verdicts = (ofVerdicts ws).verdicts := by
    refine hperm.eq_of_pairwise ?_ (inOrder_ofVerdicts vs) (inOrder_ofVerdicts ws)
    intro v w hv hw hvw hwv
    have hv : v ∈ vs := (perm_ofVerdicts vs).mem_iff.1 hv
    have hw : w ∈ vs := h.mem_iff.2 ((perm_ofVerdicts ws).mem_iff.1 hw)
    exact List.inj_on_of_nodup_map hdistinct hv hw (Nat.le_antisymm hvw hwv)
  exact congrArg Report.mk hsame

/-- **A report is the verdicts that were recorded, sorted.** It rearranges them in the order of their indexes, without
moving those for one index past each other; it gives a verdict for an index just when one was recorded for it, and one
of these; and the same verdicts in another order, each with an index of its own, have the same report, the same texts and
the same digest. -/
theorem ofVerdicts_sorted (vs : List Verdict) :
    (ofVerdicts vs).verdicts.Perm vs ∧ InOrder (ofVerdicts vs).verdicts ∧
      (∀ i, (ofVerdicts vs).verdicts.filter (fun v => v.index = i) = vs.filter fun v => v.index = i) ∧
      (∀ i, ((ofVerdicts vs).get? i).isSome = true ↔ ∃ v ∈ vs, v.index = i) ∧
      (∀ i v, (ofVerdicts vs).get? i = some v → v ∈ vs ∧ v.index = i) ∧
      ∀ ws, vs.Perm ws → (vs.map Verdict.index).Nodup → ofVerdicts vs = ofVerdicts ws ∧
        (ofVerdicts vs).toJson = (ofVerdicts ws).toJson ∧ (ofVerdicts vs).toJson.pretty = (ofVerdicts ws).toJson.pretty ∧
        (ofVerdicts vs).digest = (ofVerdicts ws).digest := by
  have hmem : ∀ v, v ∈ (ofVerdicts vs).verdicts ↔ v ∈ vs := fun v => (perm_ofVerdicts vs).mem_iff
  refine ⟨perm_ofVerdicts vs, inOrder_ofVerdicts vs, filter_ofVerdicts vs, fun i => ?_, fun i v hv => ?_, ?_⟩
  · simp only [get?_isSome_iff (inOrder_ofVerdicts vs), hmem]
  · exact (mem_of_get? hv).imp_left (hmem v).1
  · intro ws h hdistinct
    rw [ofVerdicts_congr h hdistinct]
    exact ⟨rfl, rfl, rfl, rfl⟩

/-- Two verdicts in either order. -/
theorem ofVerdicts_sorted_sample :
    [Verdict.ok 2 (.point 3 1), .ok 0 (.point 1 1)].Perm [.ok 0 (.point 1 1), .ok 2 (.point 3 1)] ∧
      ([Verdict.ok 2 (.point 3 1), .ok 0 (.point 1 1)].map Verdict.index).Nodup ∧
      (ofVerdicts [.ok 2 (.point 3 1), .ok 0 (.point 1 1)]).digest =
        (ofVerdicts [.ok 0 (.point 1 1), .ok 2 (.point 3 1)]).digest := by
  have hperm : [Verdict.ok 2 (.point 3 1), .ok 0 (.point 1 1)].Perm [.ok 0 (.point 1 1), .ok 2 (.point 3 1)] := .swap _ _ _
  have hdistinct : ([Verdict.ok 2 (.point 3 1), .ok 0 (.point 1 1)].map Verdict.index).Nodup := by decide
  obtain ⟨-, -, -, -, -, reordered⟩ := ofVerdicts_sorted [.ok 2 (.point 3 1), .ok 0 (.point 1 1)]
  exact ⟨hperm, hdistinct, (reordered _ hperm hdistinct).2.2.2⟩

end AnnotationChecker.Report
