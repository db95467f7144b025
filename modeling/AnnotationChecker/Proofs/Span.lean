import Mathlib.Data.Prod.Lex
import Mathlib.Data.List.DropRight
import AnnotationChecker.Span
/-!
# The order of places

Places are ordered as they follow each other in a text, and the characters before a place say which it is
(`Position.start_after`). Spans are compared by where they start and end: one covers another, or it ends before another
one starts.
-/

namespace AnnotationChecker

/-! ## Places -/

namespace Position

/-- Places follow each other by line, and in a line by column. -/
instance : LinearOrder Position :=
  LinearOrder.lift' (fun p => toLex (p.line, p.col)) fun p q h => by
    have hpair : (p.line, p.col) = (q.line, q.col) := h
    rw [Prod.mk.injEq] at hpair
    cases p
    cases q
    simp_all

variable {p q : Position}

theorem le_iff : p ≤ q ↔ p.line < q.line ∨ (p.line = q.line ∧ p.col ≤ q.col) := Prod.Lex.toLex_le_toLex

theorem lt_iff : p < q ↔ p.line < q.line ∨ (p.line = q.line ∧ p.col < q.col) := Prod.Lex.toLex_lt_toLex

theorem le_eq_true_iff : p.le q = true ↔ p ≤ q := by
  rw [le_iff, le]
  simp

theorem lt_step (p : Position) (c : Char) : p < p.step c := by
  rw [lt_iff, step]
  split
  · exact .inl (Nat.lt_succ_self _)
  · exact .inr ⟨rfl, Nat.lt_succ_self _⟩

theorem le_after (p : Position) (cs : List Char) : p ≤ p.after cs := by
  induction cs generalizing p with
  | nil => exact le_refl p
  | cons c cs ih => exact (lt_step p c).le.trans (ih _)

theorem lt_after (p : Position) {cs : List Char} (h : cs ≠ []) : p < p.after cs := by
  obtain ⟨c, cs, rfl⟩ := List.exists_cons_of_ne_nil h
  exact (lt_step p c).trans_le (le_after _ cs)

theorem one_le_col_after (h : 1 ≤ p.col) (cs : List Char) : 1 ≤ (p.after cs).col := by
  induction cs generalizing p with
  | nil => exact h
  | cons c cs ih =>
    refine ih ?_
    rw [step]
    split
    · exact Nat.le_refl 1
    · exact Nat.le_succ_of_le h

/-- The characters of a text after its last line feed. -/
def lastLine (cs : List Char) : List Char := cs.rtakeWhile (· ≠ '\n')

@[simp] theorem lastLine_newline (cs : List Char) : lastLine (cs ++ ['\n']) = [] :=
  List.rtakeWhile_concat_neg _ _ _ (by simp)

@[simp] theorem lastLine_snoc {c : Char} (hc : c ≠ '\n') (cs : List Char) :
    lastLine (cs ++ [c]) = lastLine cs ++ [c] :=
  List.rtakeWhile_concat_pos _ _ _ (by simpa using hc)

/-- The place behind some characters: its line is one more than the line feeds among them, its column one more than the
characters after the last of these. -/
theorem start_after (cs : List Char) : start.after cs = ⟨cs.count '\n' + 1, (lastLine cs).length + 1⟩ := by
  induction cs using List.reverseRecOn with
  | nil => rfl
  | append_singleton cs c ih =>
    rw [after_append, after_cons, after_nil, ih, step, List.count_append]
    by_cases hc : c = '\n'
    · subst hc
      simp
    · simp [hc]

end Position

/-! ## Spans -/

namespace Span

variable {s t u : Span} {p q : Position}

@[simp] theorem first_between (p q : Position) : (between p q).first = p := rfl

theorem first_merge (s t : Span) : (s.merge t).first = min s.first t.first := by
  rw [min_def, ← ite_congr (propext Position.le_eq_true_iff) (fun _ => rfl) fun _ => rfl]
  rfl

theorem last_merge (s t : Span) : (s.merge t).last = max s.last t.last := by
  rw [max_def, ← ite_congr (propext Position.le_eq_true_iff) (fun _ => rfl) fun _ => rfl]
  rfl

theorem first_le_last_between (h : p < q) : (between p q).first ≤ (between p q).last := by
  rw [Position.lt_iff] at h
  rw [Position.le_iff]
  simp only [first, last, between]
  omega

theorem last_between_le (h : 1 ≤ q.col) : (between p q).last ≤ q := by
  rw [Position.le_iff]
  simp only [last, between, true_and]
  omega

/-- A span that runs over all of another one. -/
structure Covers (s t : Span) : Prop where
  first : s.first ≤ t.first
  last : t.last ≤ s.last

/-- A span ends before another one starts. -/
def Before (s t : Span) : Prop := s.last < t.first

/-- A span holds others: it covers all of them, and each of them ends before the next one starts. -/
structure Holds (s : Span) (parts : List Span) : Prop where
  proper : ∀ t ∈ s :: parts, t.first ≤ t.last
  covers : ∀ t ∈ parts, s.Covers t
  ordered : parts.Pairwise Before

end Span

end AnnotationChecker
