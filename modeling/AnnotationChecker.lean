import AnnotationChecker.Main
import AnnotationChecker.Proofs.Ty.Transitivity
import AnnotationChecker.Proofs.Checker.Data
import AnnotationChecker.Proofs.Checker.Typing
import AnnotationChecker.Proofs.Ty.RoundTrip
import AnnotationChecker.Proofs.Ty.Normalized
import AnnotationChecker.Proofs.Checker.Repetition
import AnnotationChecker.Proofs.Statement.Recovery
import AnnotationChecker.Proofs.Hint.Grammar
import AnnotationChecker.Proofs.Registry.Cycles
import AnnotationChecker.Proofs.Fixture
import AnnotationChecker.Proofs.Checker.Types
import AnnotationChecker.Proofs.CommandLine.Independence
import AnnotationChecker.Proofs.Verdict.Json
import AnnotationChecker.Proofs.Token.Append
import AnnotationChecker.Proofs.Registry.Canonical
import AnnotationChecker.Proofs.Registry.Json
import AnnotationChecker.Proofs.Statement.Height
import AnnotationChecker.Proofs.Token.Returns
import AnnotationChecker.Proofs.Ty.Join
import AnnotationChecker.Proofs.Ty.Derivation
import AnnotationChecker.Proofs.Hint.Spelling
import AnnotationChecker.Proofs.Statement.RoundTrip
import AnnotationChecker.Proofs.Ty.Widen
import AnnotationChecker.Proofs.Located
import AnnotationChecker.Proofs.Checker.Display
import AnnotationChecker.Proofs.Token.Stream
import AnnotationChecker.Proofs.Statement.Integers
import AnnotationChecker.Proofs.Diagnostic.History
import AnnotationChecker.Proofs.Token.Stray
import AnnotationChecker.Proofs.Statement.Body
import AnnotationChecker.Proofs.Verdict.Recorded
import AnnotationChecker.Proofs.Ty.Grouped
import AnnotationChecker.Proofs.Statement.Rounds
