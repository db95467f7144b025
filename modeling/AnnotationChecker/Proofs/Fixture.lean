import AnnotationChecker.Fixture
import AnnotationChecker.Proofs.Checker.Run
import AnnotationChecker.Proofs.Diagnostic
import AnnotationChecker.Proofs.Report
/-!
# Fixtures lose and invent nothing

Without issues in its grammar, a fixture has one check for each statement that carries an expectation, with the verdict
on that very statement (`judged_pair`), and what disagrees is counted and stored in order (`compared_ofOutcome`); with
such issues there is nothing to compare. A report has an issue for every verdict that rejects, and no other
(`length_issues`), so the diagnostics of a file count its issues and its rejected statements. `ofFile_exact` puts all
of this together.
-/

namespace AnnotationChecker

/-- The status that the author of a statement expects. -/
def Expectation.status : Expectation → Status
  | .ok => .ok
  | .err => .err

theorem ExpectationCheck.matched_iff (c : ExpectationCheck) :
    c.matched = true ↔ c.verdict.status = c.expected.status := by
  unfold matched Verdict.agrees Expectation.status
  cases c.expected <;> simp

/-- The statements that carry an expectation, each with its position. -/
def Statement.expecting (ss : List Statement) : List (Statement × Nat) :=
  ss.zipIdx.filter fun p => p.1.expectation.isSome

/-! ## Verdicts and issues -/

namespace Checker

variable {r : Registry}

/-- A verdict carries an issue exactly when it rejects. -/
theorem issueOf?_verdict (env : Bindings) (index : Nat) (s : Statement) :
    (Outcome.issueOf? (verdict r env index s)).isSome = decide ((verdict r env index s).status = .err) := by
  unfold verdict
  cases accepts r env s.kind with
  | ok => rfl
  | error c => rfl

/-- There are as many issues as verdicts that reject. -/
theorem length_issues (env : Bindings) (index : Nat) (ss : List Statement) :
    ((run r env index ss).1.filterMap Outcome.issueOf?).length =
      (run r env index ss).1.countP fun v => v.status = .err := by
  induction ss generalizing env index with
  | nil => rfl
  | cons s ss ih =>
    have hs := issueOf?_verdict (r := r) env index s
    simp only [run, List.countP_cons, List.filterMap_cons]
    cases hi : Outcome.issueOf? (verdict r env index s) with
    | none =>
      rw [hi, Option.isSome_none] at hs
      rw [← hs, ih]
      rfl
    | some i =>
      rw [hi, Option.isSome_some] at hs
      rw [← hs, List.length_cons, ih]
      rfl

/-- The verdict at a position is the one on the statement there. -/
theorem verdicts_check_getElem? {env : Bindings} {ss : List Statement} {i : Nat} {s : Statement} (h : ss[i]? = some s) :
    ∃ v, (check r env ss).1.verdicts[i]? = some v ∧ v.index = i ∧ v.span = s.span := by
  refine ⟨verdict r (run r env 0 (ss.take i)).2 i s, ?_, index_verdict _ _ _, span_verdict _ _ _⟩
  rw [verdicts_check, run_getElem?, h, Nat.zero_add]
  rfl

theorem aligned_check (r : Registry) (env : Bindings) (ss : List Statement) :
    Report.Aligned (check r env ss).1.verdicts := by
  intro i v hv
  rw [verdicts_check, run_getElem?, Nat.zero_add] at hv
  obtain ⟨s, -, rfl⟩ := Option.map_eq_some_iff.1 hv
  exact index_verdict _ _ _

end Checker

namespace FixtureResult

/-! ## Pairs -/

/-- A statement at its position and the check of its expectation: the verdict is the one in the report that has this
position. -/
structure Judged (report : Report) (p : Statement × Nat) (c : ExpectationCheck) : Prop where
  expected : p.1.expectation = some c.expected
  verdict : report.verdicts[p.2]? = some c.verdict
  index : c.verdict.index = p.2
  span : c.verdict.span = p.1.span

/-- Looking the verdicts up skips no statement that carries an expectation. -/
theorem judged_pair {r : Registry} {ss : List Statement} {report : Report}
    (h : report = (Checker.check r .empty ss).1) :
    List.Forall₂ (Judged report) (Statement.expecting ss) (pair report ss) := by
  have hall : ∀ p ∈ ss.zipIdx, ∃ v, report.verdicts[p.2]? = some v ∧ v.index = p.2 ∧ v.span = p.1.span := by
    rintro ⟨s, i⟩ hp
    rw [h]
    exact Checker.verdicts_check_getElem? (List.mem_zipIdx_iff_getElem?.1 hp)
  have hget : ∀ i, report.get? i = report.verdicts[i]? := by
    rw [h]
    exact Report.get?_eq_getElem? (Checker.aligned_check r .empty ss)
  unfold pair Statement.expectations Statement.expecting
  rw [List.filterMap_filterMap]
  -- one statement after the other, whatever the positions are
  revert hall
  generalize ss.zipIdx = ps
  intro hall
  induction ps with
  | nil => exact .nil
  | cons p ps ih =>
    obtain ⟨s, i⟩ := p
    obtain ⟨⟨v, hv, hindex, hspan⟩, hrest⟩ := List.forall_mem_cons.1 hall
    have hrest := ih hrest
    cases he : s.expectation with
    | none =>
      simp only [List.filter_cons, List.filterMap_cons, he, Option.isSome_none, Bool.false_eq_true, if_false,
        Option.map_none, Option.bind_none]
      exact hrest
    | some e =>
      simp only [List.filter_cons, List.filterMap_cons, he, Option.isSome_some, if_true, Option.map_some,
        Option.bind_some, hget, hv] at hrest ⊢
      exact .cons ⟨he, hv, hindex, hspan⟩ hrest

/-! ## What disagrees -/

/-- A diagnostic says that a check disagrees, at the statement that was checked. -/
structure Reports (f : SourceFile) (c : ExpectationCheck) (d : Diagnostic) : Prop where
  code : d.code = .expectationMismatch
  message : d.message = c.message
  span : d.span = c.verdict.span
  file : d.file = f.name
  sourceLine : d.sourceLine = f.lineFor c.verdict.span

theorem reports_mismatch (f : SourceFile) (c : ExpectationCheck) : Reports f c (c.mismatch f) := by
  unfold ExpectationCheck.mismatch
  cases c.expected <;> exact ⟨rfl, rfl, rfl, rfl, rfl⟩

/-- The result for a report on statements: every expectation is checked, those that disagree are counted, the first of
them are stored, and there are none of them in a fixture that passes. -/
structure Compared (f : SourceFile) (report : Report) (ss : List Statement) (x : FixtureResult) : Prop where
  checks : List.Forall₂ (Judged report) (Statement.expecting ss) x.checks
  counts : x.matchedCount + x.mismatches.total = (Statement.expecting ss).length
  stored : List.Forall₂ (Reports f)
    ((x.checks.filter fun c => c.verdict.status ≠ c.expected.status).take maxDiagnostics) x.mismatches.stored
  passed : x.passed = true ↔ ∀ c ∈ x.checks, c.verdict.status = c.expected.status

variable {r : Registry} {o : Outcome} {report : Report}

/-- The checks of which the verdict is not the expected one. -/
def wrong (x : FixtureResult) : List ExpectationCheck := x.checks.filter fun c => !c.matched

theorem mismatches_ofOutcome (o : Outcome) :
    (ofOutcome o).mismatches =
      Diagnostics.empty.pushAll ((ofOutcome o).wrong.map (ExpectationCheck.mismatch o.file)) := rfl

theorem total_mismatches (o : Outcome) : (ofOutcome o).mismatches.total = (ofOutcome o).wrong.length := by
  rw [mismatches_ofOutcome, Diagnostics.total_pushAll, List.length_map]
  exact Nat.zero_add _

theorem stored_mismatches (o : Outcome) :
    (ofOutcome o).mismatches.stored =
      ((ofOutcome o).wrong.take maxDiagnostics).map (ExpectationCheck.mismatch o.file) := by
  rw [mismatches_ofOutcome, Diagnostics.stored_pushAll, List.map_take]
  rfl

/-- Every check is met or counted as a mismatch. -/
theorem matchedCount_add_total (o : Outcome) :
    (ofOutcome o).matchedCount + (ofOutcome o).mismatches.total = (ofOutcome o).checks.length := by
  have hwrong : (ofOutcome o).wrong.length = (ofOutcome o).checks.countP fun c => ¬ c.matched := by
    rw [wrong, ← List.countP_eq_length_filter]
    simp
  rw [total_mismatches, hwrong]
  exact (List.length_eq_countP_add_countP _).symm

theorem wrong_eq (x : FixtureResult) :
    x.wrong = x.checks.filter fun c => c.verdict.status ≠ c.expected.status := by
  unfold wrong
  refine List.filter_congr fun c _ => ?_
  rw [Bool.eq_iff_iff]
  simp [← ExpectationCheck.matched_iff]

/-- Without a report there is nothing to compare. -/
theorem nothing_ofOutcome (hreport : o.report = none) (hissues : 0 < o.syntaxErrors.total) :
    (ofOutcome o).report = none ∧ (ofOutcome o).checks = [] ∧ (ofOutcome o).mismatches = .empty ∧
      (ofOutcome o).passed = false := by
  have hchecks : (ofOutcome o).checks = [] := by
    unfold ofOutcome
    rw [hreport]
  refine ⟨hreport, hchecks, ?_, ?_⟩
  · rw [mismatches_ofOutcome, wrong, hchecks]
    rfl
  · show (!decide (0 < o.syntaxErrors.total) && _) = false
    simp [hissues]

theorem compared_ofOutcome (hreport : o.report = some report)
    (hcheck : report = (Checker.check r .empty o.statements).1)
    (hclean : o.syntaxErrors.total = 0) : Compared o.file report o.statements (ofOutcome o) := by
  have hpairs : (ofOutcome o).checks = pair report o.statements := by
    unfold ofOutcome
    rw [hreport]
  have hchecks : List.Forall₂ (Judged report) (Statement.expecting o.statements) (ofOutcome o).checks := by
    rw [hpairs]
    exact judged_pair hcheck
  refine ⟨hchecks, ?_, ?_, ?_⟩
  · rw [matchedCount_add_total, hchecks.length_eq]
  · rw [stored_mismatches, ← wrong_eq, List.forall₂_map_right_iff]
    exact List.forall₂_same.2 fun c _ => reports_mismatch o.file c
  · have hnone : (ofOutcome o).mismatches.total = 0 ↔
        ∀ c ∈ (ofOutcome o).checks, c.verdict.status = c.expected.status := by
      rw [total_mismatches, wrong_eq, List.length_eq_zero_iff, List.filter_eq_nil_iff]
      simp
    rw [← hnone]
    show (!decide (0 < o.syntaxErrors.total) && !decide (0 < (ofOutcome o).mismatches.total)) = true ↔ _
    simp [hclean]

/-! ## Files -/

variable (r : Registry) (f : SourceFile)

theorem file_ofFile : (Outcome.ofFile r f).file = f := by
  unfold Outcome.ofFile
  rfl

theorem statements_ofFile : (Outcome.ofFile r f).statements = (Parsed.ofFile f).statements := by
  unfold Outcome.ofFile
  rfl

theorem syntaxErrors_ofFile :
    (Outcome.ofFile r f).syntaxErrors =
      (Diagnostics.ofIssues f (Lexed.ofFile f).issues).extend (.ofIssues f (Parsed.ofFile f).issues) := by
  unfold Outcome.ofFile
  rfl

theorem total_syntaxErrors :
    (Outcome.ofFile r f).syntaxErrors.total = (Lexed.ofFile f).issues.length + (Parsed.ofFile f).issues.length := by
  rw [syntaxErrors_ofFile, Diagnostics.ofIssues_eq_ofHistory, Diagnostics.ofIssues_eq_ofHistory,
    Diagnostics.extend_ofHistory]
  simp [Diagnostics.ofHistory]

theorem report_ofFile :
    (Outcome.ofFile r f).report =
      if 0 < (Outcome.ofFile r f).syntaxErrors.total then none
      else some (Checker.check r .empty (Parsed.ofFile f).statements).1 := by
  rw [syntaxErrors_ofFile]
  unfold Outcome.ofFile Parsed.ofFile
  simp only
  generalize Diagnostics.extend _ _ = errors
  by_cases h : 0 < errors.total <;> simp [Diagnostics.hasErrors, h]

/-- The issues with the grammar and the verdicts that reject are counted together. -/
theorem total_diagnostics :
    (Outcome.ofFile r f).diagnostics.total =
      (Outcome.ofFile r f).syntaxErrors.total + (Outcome.ofFile r f).verdicts.countP fun v => v.status = .err := by
  have hreport := report_ofFile r f
  generalize Outcome.ofFile r f = o at hreport ⊢
  unfold Outcome.diagnostics
  rw [Diagnostics.total_pushAll, List.length_map]
  congr 1
  unfold Outcome.verdicts
  by_cases h : 0 < o.syntaxErrors.total
  · rw [if_pos h] at hreport
    rw [hreport]
    rfl
  · rw [if_neg h] at hreport
    simp only [hreport, Option.map_some, Option.getD_some, Checker.verdicts_check, Checker.length_issues]

/-- **A fixture loses and invents nothing.** With an issue in its tokens or its statements it has no report and
nothing to compare, and does not pass. Otherwise its report is the checker's, and every expectation is compared with the
verdict on its own statement. Either way the diagnostics count the issues with the grammar and the verdicts that
reject. -/
theorem ofFile_exact :
    ((Lexed.ofFile f).issues ≠ [] ∨ (Parsed.ofFile f).issues ≠ [] →
      (ofFile r f).report = none ∧ (ofFile r f).checks = [] ∧ (ofFile r f).mismatches = .empty ∧
        (ofFile r f).passed = false) ∧
    ((Lexed.ofFile f).issues = [] ∧ (Parsed.ofFile f).issues = [] →
      (ofFile r f).report = some (Checker.check r .empty (Parsed.ofFile f).statements).1 ∧
        Compared f (Checker.check r .empty (Parsed.ofFile f).statements).1 (Parsed.ofFile f).statements (ofFile r f)) ∧
    (Outcome.ofFile r f).syntaxErrors.total = (Lexed.ofFile f).issues.length + (Parsed.ofFile f).issues.length ∧
    (Outcome.ofFile r f).diagnostics.total =
      (Outcome.ofFile r f).syntaxErrors.total + (Outcome.ofFile r f).verdicts.countP fun v => v.status = .err := by
  have htotal := total_syntaxErrors r f
  have hreport := report_ofFile r f
  have hfile := file_ofFile r f
  have hstatements := statements_ofFile r f
  have hdiagnostics := total_diagnostics r f
  unfold ofFile
  generalize Outcome.ofFile r f = o at htotal hreport hfile hstatements hdiagnostics ⊢
  rw [← hstatements] at hreport ⊢
  refine ⟨fun hissues => ?_, fun ⟨hlexed, hparsed⟩ => ?_, htotal, hdiagnostics⟩
  · have hpos : 0 < o.syntaxErrors.total := by
      rw [htotal]
      rcases hissues with h | h
      · exact Nat.add_pos_left (List.length_pos_iff.2 h) _
      · exact Nat.add_pos_right _ (List.length_pos_iff.2 h)
    rw [if_pos hpos] at hreport
    exact nothing_ofOutcome hreport hpos
  · have hclean : o.syntaxErrors.total = 0 := by rw [htotal, hlexed, hparsed]; rfl
    rw [if_neg (by rw [hclean]; exact Nat.lt_irrefl 0)] at hreport
    have hcompared := compared_ofOutcome hreport rfl hclean
    rw [hfile] at hcompared
    exact ⟨hreport, hcompared⟩

end FixtureResult

end AnnotationChecker
