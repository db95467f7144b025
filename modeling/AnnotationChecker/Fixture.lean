import AnnotationChecker.Outcome
import AnnotationChecker.Verdict.Json
/-!
# Fixtures

A fixture is a file whose comments say which verdicts are expected. Its result pairs every expectation with
the verdict on its statement; a pair that disagrees is a mismatch. A fixture with issues in its grammar is
not checked and does not pass.
-/

namespace AnnotationChecker

/-- An expectation and the verdict on the same statement. -/
structure ExpectationCheck where
  expected : Expectation
  verdict : Verdict
deriving DecidableEq

namespace ExpectationCheck

/-- Is the verdict the expected one? -/
def matched (c : ExpectationCheck) : Bool := c.verdict.agrees c.expected

/-- What a mismatch says: the two verdicts, and why the statement was rejected. -/
def message (c : ExpectationCheck) : String :=
  "expected " ++ c.expected.text ++ ", checker reported " ++ c.verdict.status.text
    ++ match c.verdict.reason, c.verdict.message with
      | some r, some m => " [" ++ r.text ++ "]: " ++ m
      | _, _ => ""

/-- A mismatch, located in its file. -/
def mismatch (f : SourceFile) (c : ExpectationCheck) : Diagnostic :=
  let d := (Issue.mk .expectationMismatch c.message c.verdict.span).locate f
  match c.expected with
  | .ok => d
  | .err => { d with suggestion := some "the checker accepted this statement" }

end ExpectationCheck

/-- The result of a fixture. -/
structure FixtureResult where
  file : String
  syntaxErrors : Diagnostics
  report : Option Report
  checks : List ExpectationCheck
  mismatches : Diagnostics

namespace FixtureResult

/-- Pairs the expectations of statements with the verdicts of a report. -/
def pair (r : Report) (statements : List Statement) : List ExpectationCheck :=
  (Statement.expectations statements).filterMap fun (i, e) => (r.get? i).map (⟨e, ·⟩)

/-- Compares verdicts with expectations. -/
def ofOutcome (o : Outcome) : FixtureResult :=
  let checks := match o.report with
    | some r => pair r o.statements
    | none => []
  let wrong := checks.filter fun c => !c.matched
  { file := o.file.name
    syntaxErrors := o.syntaxErrors
    report := o.report
    checks := checks
    mismatches := Diagnostics.empty.pushAll (wrong.map (ExpectationCheck.mismatch o.file)) }

/-- Checks a fixture. -/
def ofFile (r : Registry) (f : SourceFile) : FixtureResult := ofOutcome (.ofFile r f)

/-- No issues and no mismatches. -/
def passed (x : FixtureResult) : Bool := !x.syntaxErrors.hasErrors && !x.mismatches.hasErrors

/-- How many expectations were met. -/
def matchedCount (x : FixtureResult) : Nat := x.checks.countP ExpectationCheck.matched

end FixtureResult

/-! ## As JSON -/

def ExpectationCheck.toJson (c : ExpectationCheck) : Json :=
  .object [("expected", .string c.expected.text), ("verdict", c.verdict.toJson)]

/-- The members that every result of a file starts with. -/
def resultMembers (file : String) (errors : Diagnostics) (report : Option Report) : List (String × Json) :=
  [("file", .string file), ("syntax_errors", errors.toJson)] ++ Json.optional "report" (report.map Report.toJson)

def FixtureResult.toJson (x : FixtureResult) : Json :=
  .object (resultMembers x.file x.syntaxErrors x.report
    ++ [("expectations", .array (x.checks.map ExpectationCheck.toJson)), ("mismatches", x.mismatches.toJson)])

end AnnotationChecker
