import AnnotationChecker.Verdict
/-!
# Looking a verdict up

Halving a list of verdicts that stand in order leaves the last place whose index is not too great (`seek_spec`). So
a report in order gives the last verdict for a position if it has any (`get?_eq_some_iff`), and a report with one
verdict for each position gives the one that stands there (`get?_eq_getElem?`).
-/

namespace AnnotationChecker.Report

/-- Verdicts with ascending indexes, where one index may be repeated. -/
def InOrder (vs : List Verdict) : Prop := vs.Pairwise fun v w => v.index ≤ w.index

variable {vs : List Verdict} {v w : Verdict} {i j : Nat}

theorem InOrder.le (h : InOrder vs) (hij : i ≤ j) (hv : vs[i]? = some v) (hw : vs[j]? = some w) :
    v.index ≤ w.index := by
  obtain ⟨hi, rfl⟩ := List.getElem?_eq_some_iff.1 hv
  obtain ⟨hj, rfl⟩ := List.getElem?_eq_some_iff.1 hw
  rcases Nat.eq_or_lt_of_le hij with rfl | hlt
  · exact Nat.le_refl _
  · exact List.pairwise_iff_getElem.1 h i j hi hj hlt

/-- The place that halving leaves is in the stretch; behind it the indexes are too great, and its own is not, unless
it is the first place. -/
theorem seek_spec (index first : Nat) {count : Nat} (h : InOrder vs) (hpos : 0 < count)
    (hle : first + count ≤ vs.length) :
    first ≤ seek vs index first count ∧ seek vs index first count < first + count ∧
      (∀ v : Verdict, vs[seek vs index first count]? = some v → v.index ≤ index ∨ seek vs index first count = first) ∧
      ∀ (j : Nat) (w : Verdict), seek vs index first count < j → j < first + count → vs[j]? = some w →
        index < w.index := by
  induction count using Nat.strongRecOn generalizing first with
  | _ count ih =>
    rw [seek]
    by_cases hone : 1 < count
    · rw [if_pos hone]
      obtain ⟨m, hm⟩ : ∃ m, vs[first + count / 2]? = some m :=
        ⟨_, List.getElem?_eq_getElem (show first + count / 2 < vs.length by omega)⟩
      by_cases hgreat : index < m.index
      · -- what stands in the middle or behind it is too great
        rw [if_pos (by simpa [hm] using hgreat)]
        obtain ⟨hlow, hhigh, hat, hbehind⟩ := ih (count - count / 2) (by omega) first (by omega) (by omega)
        refine ⟨hlow, by omega, hat, fun j w hj hjc hw => ?_⟩
        by_cases hjm : j < first + (count - count / 2)
        · exact hbehind j w hj hjm hw
        · exact Nat.lt_of_lt_of_le hgreat (h.le (by omega) hm hw)
      · rw [if_neg (by simpa [hm] using hgreat)]
        obtain ⟨hlow, hhigh, hat, hbehind⟩ :=
          ih (count - count / 2) (by omega) (first + count / 2) (by omega) (by omega)
        refine ⟨by omega, by omega, fun v hv => ?_, fun j w hj hjc hw => hbehind j w hj (by omega) hw⟩
        rcases hat v hv with hle | hfirst
        · exact .inl hle
        · rw [hfirst, hm] at hv
          cases hv
          exact .inl (Nat.not_lt.1 hgreat)
    · rw [if_neg hone]
      refine ⟨Nat.le_refl _, by omega, fun v hv => .inr rfl, fun j w hj hjc => ?_⟩
      omega

/-- A report in order gives the last verdict for a position. -/
theorem get?_eq_some_iff {r : Report} (h : InOrder r.verdicts) :
    r.get? i = some v ↔ v.index = i ∧ ∃ k, r.verdicts[k]? = some v ∧
      ∀ (j : Nat) (w : Verdict), k < j → r.verdicts[j]? = some w → i < w.index := by
  unfold get?
  simp only [Option.filter_eq_some_iff, beq_iff_eq]
  constructor
  · rintro ⟨hv, rfl⟩
    obtain ⟨hk, -⟩ := List.getElem?_eq_some_iff.1 hv
    obtain ⟨-, -, -, hbehind⟩ := seek_spec v.index 0 h (by omega) (Nat.le_of_eq (Nat.zero_add _))
    refine ⟨rfl, _, hv, fun j w hj hw => hbehind j w hj ?_ hw⟩
    rw [Nat.zero_add]
    exact (List.getElem?_eq_some_iff.1 hw).1
  · rintro ⟨rfl, k, hk, hlast⟩
    obtain ⟨hlt, hget⟩ := List.getElem?_eq_some_iff.1 hk
    obtain ⟨-, hin, hat, hbehind⟩ := seek_spec v.index 0 h (by omega) (Nat.le_of_eq (Nat.zero_add _))
    rw [Nat.zero_add] at hin hbehind
    refine ⟨?_, rfl⟩
    -- neither place is behind the other one
    rcases Nat.lt_trichotomy k (seek r.verdicts v.index 0 r.verdicts.length) with hkp | hkp | hkp
    · have hp := List.getElem?_eq_getElem hin
      have := hlast _ _ hkp hp
      rcases hat _ hp with hle | hzero <;> omega
    · rw [← hkp, hk]
    · exact absurd (hbehind k v hkp hlt hk) (Nat.lt_irrefl _)

/-- Every verdict stands at its own position. -/
def Aligned (vs : List Verdict) : Prop := ∀ (k : Nat) (v : Verdict), vs[k]? = some v → v.index = k

theorem Aligned.inOrder (h : Aligned vs) : InOrder vs := by
  refine List.pairwise_iff_getElem.2 fun i j hi hj hij => ?_
  rw [h i _ (List.getElem?_eq_getElem hi), h j _ (List.getElem?_eq_getElem hj)]
  exact Nat.le_of_lt hij

theorem get?_eq_getElem? {r : Report} (h : Aligned r.verdicts) (i : Nat) : r.get? i = r.verdicts[i]? := by
  ext v
  rw [get?_eq_some_iff h.inOrder]
  constructor
  · rintro ⟨rfl, k, hk, -⟩
    rwa [h k v hk]
  · intro hv
    refine ⟨h i v hv, i, hv, fun j w hj hw => ?_⟩
    rw [h j w hw]
    exact hj

end AnnotationChecker.Report
