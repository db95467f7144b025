import AnnotationChecker.Proofs.Fixture
import AnnotationChecker.Proofs.Statement.Issues
/-!
# Diagnostics show the lines that they are about

A place of a file is one that some of its characters lead to (`SourceFile.HasPlace`), and a diagnostic that starts at
such a place shows the line of it (`Issue.located_locate`). All diagnostics start at such places: issues with tokens
at a piece of the text, issues with statements at a token, and issues with verdicts at a statement, which starts at a
token as well. Together with where tokens stand this is `SourceFile.places_exact`.
-/

namespace AnnotationChecker

open Position (lastLine)

/-- Some characters of the file lead from its start to the place. -/
def SourceFile.HasPlace (f : SourceFile) (p : Position) : Prop :=
  ∃ before, before <+: f.text.toList ∧ p = Position.start.after before

/-- A diagnostic starts between what is before it in the file and what is behind it, at the line and the column that the
characters before it tell, and shows the whole of this line. -/
structure Diagnostic.LocatedAt (f : SourceFile) (d : Diagnostic) (before behind : List Char) : Prop where
  text : f.text.toList = before ++ behind
  startLine : d.span.startLine = before.count '\n' + 1
  startCol : d.span.startCol = (lastLine before).length + 1
  line : f.line? d.span.startLine = some d.sourceLine
  sourceLine : d.sourceLine = String.ofList (trimReturns (lastLine before ++ behind.takeWhile (· ≠ '\n')))

/-- Every diagnostic that is stored is located somewhere in the file. -/
def Diagnostics.Located (f : SourceFile) (ds : Diagnostics) : Prop :=
  ∀ d ∈ ds.stored, ∃ before behind, d.LocatedAt f before behind

/-- A token stands between what is before it in the file and what is behind it, at the line and the column that the
characters before it tell. Unless it ends a line or the file, its first character is on this line, at this column. -/
structure Token.StandsAt (f : SourceFile) (t : Token) (before own behind : List Char) : Prop where
  text : f.text.toList = before ++ own ++ behind
  reads : Lexed.Reads f before own t.kind
  startLine : t.span.startLine = before.count '\n' + 1
  startCol : t.span.startCol = (lastLine before).length + 1
  shown : t.kind ≠ .newline → t.kind ≠ .eof → ∃ c line, own.head? = some c ∧
    f.line? t.span.startLine = some line ∧ line.toList[t.span.startCol - 1]? = some c

/-- The line and the column at which a span starts, when some characters lead there. -/
theorem Span.start_of_first {s : Span} {before : List Char} (h : s.first = Position.start.after before) :
    s.startLine = before.count '\n' + 1 ∧ s.startCol = (lastLine before).length + 1 := by
  rw [Position.start_after] at h
  exact ⟨congrArg Position.line h, congrArg Position.col h⟩

/-! ## Diagnostics of issues -/

section

variable {f : SourceFile} {i : Issue}

/-- The line that is looked up for an issue is the one on which it starts. -/
theorem Issue.located_locate (h : f.HasPlace i.span.first) :
    ∃ before behind, (i.locate f).LocatedAt f before behind := by
  obtain ⟨before, ⟨behind, htext⟩, hfirst⟩ := h
  obtain ⟨hline, hcol⟩ := Span.start_of_first hfirst
  have hshown := SourceFile.line?_of_append htext.symm
  rw [← hline] at hshown
  have hsource : (i.locate f).sourceLine =
      String.ofList (trimReturns (lastLine before ++ behind.takeWhile (· ≠ '\n'))) := by
    show (f.line? i.span.startLine).getD "" = _
    rw [hshown]
    rfl
  refine ⟨before, behind, htext.symm, hline, hcol, ?_, hsource⟩
  rw [hsource]
  exact hshown

theorem Diagnostics.located_ofIssues {issues : List Issue} (h : ∀ i ∈ issues, f.HasPlace i.span.first) :
    (Diagnostics.ofIssues f issues).Located f := by
  intro d hd
  obtain ⟨i, hi, rfl⟩ := exists_of_mem_stored_ofIssues hd
  exact Issue.located_locate (h i hi)

end

/-! ## Tokens -/

namespace Lexed

variable {f : SourceFile} {t : Token}

theorem hasPlace_of_mem_tokens (h : t ∈ (ofFile f).tokens) : f.HasPlace t.span.first := by
  obtain ⟨before, own, behind, htext, -, hfirst⟩ := reads_of_mem_tokens h
  refine ⟨before, ⟨own ++ behind, ?_⟩, hfirst⟩
  rw [htext, List.append_assoc]

theorem standsAt_of_mem_tokens (h : t ∈ (ofFile f).tokens) : ∃ before own behind, t.StandsAt f before own behind := by
  obtain ⟨before, own, behind, htext, hreads, hfirst⟩ := reads_of_mem_tokens h
  obtain ⟨hline, hcol⟩ := Span.start_of_first hfirst
  refine ⟨before, own, behind, htext, hreads, hline, hcol, fun hnl heof => ?_⟩
  generalize t.kind = kind at *
  cases hreads with
  | ending => exact absurd rfl heof
  | piece hpieces =>
    have hmem := hpieces ▸ List.mem_append_right _ (List.mem_cons_self ..)
    obtain ⟨d, c, cs, hpiece⟩ := Piece.exists_read_of_mem_pieces hmem
    rw [Piece.mk.injEq] at hpiece
    obtain ⟨hcontent, rfl⟩ := hpiece
    obtain ⟨hn, hr⟩ := Piece.first_of_token hcontent.symm hnl
    rw [List.append_assoc, List.cons_append] at htext
    obtain ⟨line, hshown, hchar⟩ := SourceFile.line?_getElem? htext hn hr
    refine ⟨c, line, rfl, ?_, ?_⟩
    · rw [hline, hshown]
    · rw [hcol, Nat.add_sub_cancel, hchar]

/-- An issue starts where one of the pieces does. -/
theorem first_of_mem_issues {p : Position} {found : Nat} {ps : List Piece} {i : Issue}
    (h : i ∈ (ofPieces p found ps).issues) :
    ∃ qs rs, ps = qs ++ rs ∧ i.span.first = p.after (qs.flatMap Piece.text) := by
  obtain ⟨cut, left, rfl, -, hissues, -⟩ := exists_read p found ps
  obtain ⟨qs, piece, rs, rfl, hspan⟩ := mem_reported (hissues ▸ h)
  exact ⟨qs, piece :: rs ++ left, by simp, by rw [hspan, Span.first_between]⟩

theorem hasPlace_of_mem_issues {i : Issue} (h : i ∈ (ofFile f).issues) : f.HasPlace i.span.first := by
  obtain ⟨qs, rs, hpieces, hfirst⟩ := first_of_mem_issues h
  refine ⟨qs.flatMap Piece.text, ⟨rs.flatMap Piece.text, ?_⟩, hfirst⟩
  rw [← List.flatMap_append, ← hpieces, Piece.text_pieces]

end Lexed

/-! ## Statements -/

namespace Parsed

variable {f : SourceFile}

/-- An issue with statements starts with one of the tokens. -/
theorem first_of_mem_issues {ts : List Token} {room found : Nat} {i : Issue} (heof : HasEof ts) (hts : InOrder ts)
    (h : i ∈ (ofLines room found ts).issues) : ∃ t ∈ ts, i.span.first = t.span.first := by
  obtain ⟨us, hus, hend, hread⟩ := (exists_line heof).2 i h
  obtain ⟨t, ht, hfirst⟩ := (Line.reported_read hend.hasLineEnd (hts.of_infix hus.isInfix)).onLine i hread
  exact ⟨t, hus.subset (firstLine_subset us ht), hfirst⟩

theorem hasPlace_of_mem_issues {i : Issue} (h : i ∈ (ofFile f).issues) : f.HasPlace i.span.first := by
  obtain ⟨t, ht, hfirst⟩ := first_of_mem_issues (Lexed.hasEof_ofPieces _ _ _) (Lexed.inOrder_ofFile f) h
  rw [hfirst]
  exact Lexed.hasPlace_of_mem_tokens ht

theorem hasPlace_of_mem_statements {s : Statement} (h : s ∈ (ofFile f).statements) : f.HasPlace s.span.first := by
  obtain ⟨-, hisIn⟩ := (nested_ofFile f).1 s h
  obtain ⟨t, ht, hfirst⟩ := hisIn.first
  rw [hfirst]
  exact Lexed.hasPlace_of_mem_tokens ht

end Parsed

/-! ## Verdicts -/

/-- A verdict is about one of the statements. -/
theorem Checker.exists_statement {r : Registry} {env : Bindings} {ss : List Statement} {v : Verdict}
    (h : v ∈ (check r env ss).1.verdicts) : ∃ s ∈ ss, v.span = s.span := by
  obtain ⟨i, hi⟩ := List.mem_iff_getElem?.1 h
  rw [verdicts_check, run_getElem?] at hi
  obtain ⟨s, hs, rfl⟩ := Option.map_eq_some_iff.1 hi
  exact ⟨s, List.mem_of_getElem? hs, span_verdict _ _ _⟩

theorem Outcome.span_of_issueOf? {v : Verdict} {i : Issue} (h : issueOf? v = some i) : i.span = v.span := by
  unfold issueOf? at h
  split at h
  · cases h
    rfl
  · cases h

section

variable {r : Registry} {f : SourceFile} {v : Verdict}

theorem Outcome.hasPlace_of_mem_verdicts (h : v ∈ (ofFile r f).verdicts) : f.HasPlace v.span.first := by
  rw [verdicts, FixtureResult.report_ofFile] at h
  split at h
  · cases h
  · obtain ⟨s, hs, hspan⟩ := Checker.exists_statement h
    rw [hspan]
    exact Parsed.hasPlace_of_mem_statements hs

theorem Outcome.located_syntaxErrors : (ofFile r f).syntaxErrors.Located f := by
  intro d hd
  rw [FixtureResult.syntaxErrors_ofFile] at hd
  rcases Diagnostics.mem_of_mem_stored_extend hd with hd | hd
  · exact Diagnostics.located_ofIssues (fun i => Lexed.hasPlace_of_mem_issues) d hd
  · exact Diagnostics.located_ofIssues (fun i => Parsed.hasPlace_of_mem_issues) d hd

theorem Outcome.located_diagnostics : (ofFile r f).diagnostics.Located f := by
  intro d hd
  rcases Diagnostics.mem_of_mem_stored_pushAll hd with hd | hd
  · exact located_syntaxErrors d hd
  · obtain ⟨i, hi, rfl⟩ := List.mem_map.1 hd
    obtain ⟨v, hv, hissue⟩ := List.mem_filterMap.1 hi
    rw [FixtureResult.file_ofFile]
    refine Issue.located_locate ?_
    rw [span_of_issueOf? hissue]
    exact hasPlace_of_mem_verdicts hv

theorem FixtureResult.mem_checks_of_mem_wrong {x : FixtureResult} {c : ExpectationCheck} (h : c ∈ x.wrong) :
    c ∈ x.checks := List.mem_of_mem_filter h

/-- A check of a fixture is about one of the verdicts. -/
theorem FixtureResult.verdict_mem_verdicts {c : ExpectationCheck} (h : c ∈ (ofFile r f).checks) :
    c.verdict ∈ (Outcome.ofFile r f).verdicts := by
  unfold ofFile ofOutcome at h
  dsimp only at h
  split at h
  · next report hreport =>
    obtain ⟨⟨i, e⟩, -, hpair⟩ := List.mem_filterMap.1 h
    obtain ⟨v, hv, rfl⟩ := Option.map_eq_some_iff.1 hpair
    rw [Outcome.verdicts, hreport]
    rw [report_ofFile] at hreport
    split at hreport
    · cases hreport
    · cases hreport
      rw [Report.get?_eq_getElem? (Checker.aligned_check _ _ _)] at hv
      exact List.mem_of_getElem? hv
  · cases h

theorem ExpectationCheck.located_mismatch {c : ExpectationCheck} (h : f.HasPlace c.verdict.span.first) :
    ∃ before behind, (c.mismatch f).LocatedAt f before behind := by
  have hissue : f.HasPlace (Issue.mk .expectationMismatch c.message c.verdict.span).span.first := h
  obtain ⟨before, behind, hlocated⟩ := Issue.located_locate hissue
  refine ⟨before, behind, ?_⟩
  unfold mismatch
  cases c.expected with
  | ok => exact hlocated
  | err => exact ⟨hlocated.text, hlocated.startLine, hlocated.startCol, hlocated.line, hlocated.sourceLine⟩

theorem FixtureResult.located_mismatches : (ofFile r f).mismatches.Located f := by
  intro d hd
  rw [ofFile, stored_mismatches, file_ofFile] at hd
  obtain ⟨c, hc, rfl⟩ := List.mem_map.1 hd
  have hcheck := mem_checks_of_mem_wrong (List.mem_of_mem_take hc)
  exact ExpectationCheck.located_mismatch (Outcome.hasPlace_of_mem_verdicts (verdict_mem_verdicts hcheck))

end

/-- **Places are exact.** Every token of a file stands at the line and the column that the characters before it tell,
and it is found there on its source line. Tokens start one behind the other, and each of them ends at the latest where
the next one starts. Every diagnostic that is stored, about tokens, statements, verdicts or expectations, shows the
line of the file that it starts on. -/
theorem SourceFile.places_exact (f : SourceFile) (r : Registry) :
    InOrder (Lexed.ofFile f).tokens ∧
      (∀ t ∈ (Lexed.ofFile f).tokens, ∃ before own behind, t.StandsAt f before own behind) ∧
      (Diagnostics.ofIssues f (Lexed.ofFile f).issues).Located f ∧
      (Diagnostics.ofIssues f (Parsed.ofFile f).issues).Located f ∧
      (Outcome.ofFile r f).syntaxErrors.Located f ∧ (Outcome.ofFile r f).diagnostics.Located f ∧
      (FixtureResult.ofFile r f).mismatches.Located f := by
  refine ⟨Lexed.inOrder_ofFile f, fun t => Lexed.standsAt_of_mem_tokens, ?_, ?_, ?_, ?_, ?_⟩
  · exact Diagnostics.located_ofIssues fun i => Lexed.hasPlace_of_mem_issues
  · exact Diagnostics.located_ofIssues fun i => Parsed.hasPlace_of_mem_issues
  · exact Outcome.located_syntaxErrors
  · exact Outcome.located_diagnostics
  · exact FixtureResult.located_mismatches

/-- A newline ends where the next line starts, so a token can end at the very place where the next one starts. -/
example : (Lexed.ofFile ⟨"a.py", "x\ny"⟩).tokens.map (·.span) =
    [⟨1, 1, 1, 1⟩, ⟨1, 2, 2, 1⟩, ⟨2, 1, 2, 1⟩, ⟨2, 2, 2, 2⟩] := by
  decide +kernel

end AnnotationChecker
