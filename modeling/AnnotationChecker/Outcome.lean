import AnnotationChecker.Token.Lexer
import AnnotationChecker.Statement.Parser
import AnnotationChecker.Checker
/-!
# From a file to a report

A file is cut into tokens, read into statements, and checked unless there is an issue with its grammar.
-/

namespace AnnotationChecker

/-- What checking a file produced. Without a report there are issues with its grammar. -/
structure Outcome where
  file : SourceFile
  statements : List Statement
  syntaxErrors : Diagnostics
  report : Option Report

namespace Outcome

/-- Checks a file. Issues with tokens come before those with statements. -/
def ofFile (r : Registry) (f : SourceFile) : Outcome :=
  let lexed := Lexed.ofFile f
  let parsed := Parsed.ofTokens lexed.tokens
  let errors := (Diagnostics.ofIssues f lexed.issues).extend (.ofIssues f parsed.issues)
  { file := f
    statements := parsed.statements
    syntaxErrors := errors
    report := if errors.hasErrors then none else some (Checker.check r .empty parsed.statements).1 }

/-- The issue of a verdict that has a code and a message. -/
def issueOf? (v : Verdict) : Option Issue :=
  match v.code, v.message with
  | some code, some message => some ⟨code, message, v.span⟩
  | _, _ => none

/-- The verdicts of the report, if there is one. -/
def verdicts (o : Outcome) : List Verdict := (o.report.map Report.verdicts).getD []

/-- The issues with the grammar, then those of the rejected statements. -/
def diagnostics (o : Outcome) : Diagnostics :=
  o.syntaxErrors.pushAll ((o.verdicts.filterMap issueOf?).map (Issue.locate o.file))

end Outcome

end AnnotationChecker
