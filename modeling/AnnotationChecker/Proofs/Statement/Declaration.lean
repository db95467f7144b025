import AnnotationChecker.Statement.Parser
import AnnotationChecker.Proofs.Hint.Reading
/-!
# A module that is one declaration

The tokens of a name, a colon, a hint and the end of the line are read as one declaration of the name with
that hint, and nothing else, unless the hint is nested too deeply.
-/

namespace AnnotationChecker

open AnnotationChecker.Parser

/-- A declaration of a name with a hint of this plain form, and without a value. -/
def StatementKind.Declares (x : String) (h : Hint) (k : StatementKind) : Prop :=
  ∃ s h', k = .declare ⟨x, s⟩ h' none ∧ h'.plain = h.plain

variable {x : String} {h : Hint} {c : Cursor} {ts : List Token}

theorem yields_declarationParser (hl : h.Legible)
    (hc : c.kinds = .identifier x :: .mark .colon :: (h.kinds ++ [.newline, .eof])) :
    Yields declarationParser c fun k c' => k.Declares x h ∧ c'.kinds = [.newline, .eof] := by
  refine .bind (Yields.identifier hc) ?_
  rintro ⟨n, s⟩ c₁ ⟨rfl, hc₁⟩
  refine .bind (Yields.expect hc₁) ?_
  intro _ c₂ hc₂
  refine .bind (Hint.parser_reads hl c₂ _ _ (by simp [Hint.EndsChain, Hint.EndsAtom]) hc₂) ?_
  rintro h' c₃ ⟨hh, hc₃⟩
  refine .bind (Yields.eat_of_ne hc₃ (by decide)) ?_
  rintro b c₄ ⟨rfl, hc₄⟩
  exact .pure ⟨⟨s, h', rfl, hh⟩, hc₄⟩

namespace Line

/-- A line that was stopped by the nesting limit. -/
def IsTooDeep (l : Line) : Prop := ∃ i ∈ l.issues, i.code = .nestingTooDeep

/-- A line ends with its newline. -/
theorem finish_newline {ks : List TokenKind} (h : ts.map Token.kind = .newline :: ks) :
    finish ts = ⟨none, [], ts.drop 1⟩ := by
  cases ts with
  | nil => simp at h
  | cons t ts =>
    have ht : t.kind = .newline := by simpa using congrArg List.head? h
    simp [finish, close, head, ht]

theorem read_declaration (hl : h.Legible)
    (hk : ts.map Token.kind = .identifier x :: .mark .colon :: (h.kinds ++ [.newline, .eof]))
    (hcol : (head ts).span.startCol ≤ 1) :
    (read ts).IsTooDeep ∨
      ∃ s, (read ts).statement = some s ∧ s.kind.Declares x h ∧ (read ts).issues = [] ∧
        (read ts).rest.map Token.kind = [.eof] := by
  match ts, hk with
  | ⟨k, s⟩ :: ⟨k', s'⟩ :: ts, hk =>
    have hy := Yields.spanned (yields_declarationParser (c := ⟨⟨k, s⟩ :: ⟨k', s'⟩ :: ts, Span.point 1 1, 0⟩) hl hk)
    simp only [List.map_cons, List.cons.injEq] at hk
    obtain ⟨rfl, rfl, -⟩ := hk
    -- a line that starts with a name and a colon goes to the parser of declarations
    have hread : read (⟨.identifier x, s⟩ :: ⟨.mark .colon, s'⟩ :: ts) =
        ofStatement declarationParser (⟨.identifier x, s⟩ :: ⟨.mark .colon, s'⟩ :: ts) := by
      unfold read
      simp only [if_neg (Nat.not_lt.2 hcol)]
      rfl
    rw [hread]
    unfold ofStatement
    unfold Yields at hy
    split
    · next kind span c heq =>
      rw [heq] at hy
      obtain ⟨hd, hrest⟩ := hy
      have hfinish := finish_newline hrest
      have hdrop : (c.rest.drop 1).map Token.kind = [.eof] := by
        rw [List.map_drop]
        exact congrArg (List.drop 1) hrest
      exact .inr ⟨⟨kind, span, none⟩, by simp [ended, hfinish], hd, by simp [ended, hfinish],
        by simpa only [ended, hfinish] using hdrop⟩
    · next i c heq =>
      rw [heq] at hy
      exact .inl ⟨i, by simp [brokenStatement, broken], hy⟩

end Line

namespace Parsed

/-- A module that was stopped by the nesting limit. -/
def IsTooDeep (p : Parsed) : Prop := ∃ i ∈ p.issues, i.code = .nestingTooDeep

instance (p : Parsed) : Decidable p.IsTooDeep :=
  inferInstanceAs (Decidable (∃ i ∈ p.issues, i.code = .nestingTooDeep))

theorem ofLines_eof {room found : Nat} (hk : ts.map Token.kind = [.eof]) : ofLines room found ts = ⟨[], []⟩ := by
  cases room with
  | zero => rfl
  | succ room =>
    obtain ⟨t, rfl, ht⟩ := List.map_eq_singleton_iff.1 hk
    simp [ofLines, Line.skipBlank, Line.head, ht, TokenKind.isComment]

theorem ofTokens_declaration (hl : h.Legible)
    (hk : ts.map Token.kind = .identifier x :: .mark .colon :: (h.kinds ++ [.newline, .eof]))
    (hcol : (Line.head ts).span.startCol ≤ 1) :
    (ofTokens ts).IsTooDeep ∨
      (ofTokens ts).issues = [] ∧ ∃ s, (ofTokens ts).statements = [s] ∧ s.kind.Declares x h := by
  have hhead : (Line.head ts).kind = .identifier x := by
    cases ts with
    | nil => simp at hk
    | cons t ts => simpa [Line.head] using congrArg List.head? hk
  have hskip : Line.skipBlank ts = ts := by
    cases ts with
    | nil => rfl
    | cons t ts =>
      rw [Line.head, List.headD_cons] at hhead
      simp [Line.skipBlank, hhead, TokenKind.isComment]
  have hstep : ofTokens ts =
      (ofLines ts.length (Line.read ts).issues.length (Line.read ts).rest).after (Line.read ts) := by
    unfold ofTokens
    rw [ofLines]
    simp [hskip, hhead, maxDiagnostics]
  rw [hstep]
  rcases Line.read_declaration hl hk hcol with ⟨i, hi, hcode⟩ | ⟨s, hs, hd, hissues, hrest⟩
  · exact .inl ⟨i, List.mem_append_left _ hi, hcode⟩
  · rw [ofLines_eof hrest]
    exact .inr ⟨by simp [after, hissues], s, by simp [after, hs], hd⟩

end Parsed

end AnnotationChecker
