import AnnotationChecker.Diagnostic
import AnnotationChecker.Statement
/-!
# Verdicts

A verdict says whether a statement is accepted, and if not, why. A report lists verdicts by the position of
their statements; verdicts for one position stay in the order in which they were given. A verdict is looked up
by halving the list.
-/

namespace AnnotationChecker

/-- Accepted or rejected. -/
inductive Status where
  | ok
  | err
deriving DecidableEq

def Status.text : Status → String
  | .ok => "OK"
  | .err => "ERR"

/-- Why a statement is rejected. -/
inductive Reason where
  | kindMismatch
  | literalOutOfRange
  | arityMismatch
  | unresolvedName
  | invalidHint
deriving DecidableEq

namespace Reason

def text : Reason → String
  | .kindMismatch => "kind-mismatch"
  | .literalOutOfRange => "literal-out-of-range"
  | .arityMismatch => "arity-mismatch"
  | .unresolvedName => "unresolved-name"
  | .invalidHint => "invalid-annotation"

/-- Every reason. -/
def all : List Reason := [.kindMismatch, .literalOutOfRange, .arityMismatch, .unresolvedName, .invalidHint]

/-- The code of a reason; a fault in a hint has a code of its own, and this one stands in for it. -/
def code : Reason → ErrorCode
  | .kindMismatch => .kindMismatch
  | .literalOutOfRange => .literalOutOfRange
  | .arityMismatch => .arityMismatch
  | .unresolvedName => .unresolvedName
  | .invalidHint => .malformedHint

end Reason

/-- The outcome for the statement at a position. -/
structure Verdict where
  index : Nat
  span : Span
  status : Status
  reason : Option Reason := none
  code : Option ErrorCode := none
  message : Option String := none
deriving DecidableEq

namespace Verdict

/-- The statement is accepted. -/
def ok (index : Nat) (span : Span) : Verdict := { index, span, status := .ok }

/-- The statement is rejected. -/
def err (index : Nat) (span : Span) (reason : Reason) (message : String) : Verdict :=
  { index, span, status := .err, reason := some reason, code := some reason.code, message := some message }

/-- Replaces the code that follows from the reason. -/
def withCode (v : Verdict) (code : ErrorCode) : Verdict := { v with code := some code }

def isOk (v : Verdict) : Bool := v.status = .ok

/-- Is this what was expected? -/
def agrees (v : Verdict) : Expectation → Bool
  | .ok => v.status = .ok
  | .err => v.status = .err

/-- A verdict is shown as `line:column #index STATUS`, followed by what there is of reason, code and
message. -/
def text (v : Verdict) : String :=
  v.span.text ++ " #" ++ toString v.index ++ " " ++ v.status.text
    ++ (match v.reason with
      | some r => " [" ++ r.text ++ "]"
      | none => "")
    ++ (match v.code with
      | some c => " " ++ c.text
      | none => "")
    ++ match v.message with
      | some m => " " ++ m
      | none => ""

end Verdict

/-- The verdicts of one check. -/
structure Report where
  verdicts : List Verdict
deriving DecidableEq

namespace Report

/-- The report of verdicts that were given in any order. -/
def ofVerdicts (vs : List Verdict) : Report := ⟨vs.mergeSort fun v w => v.index ≤ w.index⟩

/-- Halves a stretch of verdicts, given by its first place and its length, until one place is left. If the verdicts
stand in order, that is the place of the last one whose index is not above the given one. -/
def seek (vs : List Verdict) (index first count : Nat) : Nat :=
  if 1 < count then
    let half := count / 2
    if vs[first + half]?.any fun v => index < v.index then seek vs index first (count - half)
    else seek vs index (first + half) (count - half)
  else first
termination_by count

/-- The verdict for a position; of several ones, the last. -/
def get? (r : Report) (index : Nat) : Option Verdict :=
  r.verdicts[seek r.verdicts index 0 r.verdicts.length]?.filter fun v => v.index == index

def size (r : Report) : Nat := r.verdicts.length

def okCount (r : Report) : Nat := r.verdicts.countP Verdict.isOk

def errCount (r : Report) : Nat := r.size - r.okCount

/-- How many verdicts have a reason. -/
def countReason (r : Report) (reason : Reason) : Nat := r.verdicts.countP fun v => v.reason = some reason

end Report

end AnnotationChecker
