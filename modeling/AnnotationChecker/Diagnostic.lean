import AnnotationChecker.Source
/-!
# Issues and diagnostics

An `Issue` is a fault at a place of the file at hand: a numbered code, a message and a span. Located
in its file it becomes a `Diagnostic`, which carries the file's name and the faulty line. A stage
collects diagnostics in `Diagnostics`: the first `maxDiagnostics` are stored, all are counted.
-/

namespace AnnotationChecker

/-- How many diagnostics a stage stores; later ones are only counted. -/
def maxDiagnostics : Nat := 20

/-- What a diagnostic is about. -/
inductive Category where
  | grammar
  | hint
  | check
  | expectation
deriving DecidableEq

/-- The word for a category. -/
def Category.text : Category → String
  | .grammar => "syntax"
  | .hint => "annotation"
  | .check => "check"
  | .expectation => "expectation"

/-- The number of a kind of fault. -/
structure ErrorCode where
  number : Nat
deriving DecidableEq

namespace ErrorCode

def unexpectedToken : ErrorCode := ⟨100⟩
def unterminatedString : ErrorCode := ⟨101⟩
def unexpectedCharacter : ErrorCode := ⟨102⟩
def missingHint : ErrorCode := ⟨103⟩
def unexpectedIndent : ErrorCode := ⟨104⟩
def nestingTooDeep : ErrorCode := ⟨105⟩
def unknownType : ErrorCode := ⟨200⟩
def wrongTypeArity : ErrorCode := ⟨201⟩
def invalidLiteralKind : ErrorCode := ⟨202⟩
def malformedHint : ErrorCode := ⟨203⟩
def kindMismatch : ErrorCode := ⟨300⟩
def literalOutOfRange : ErrorCode := ⟨301⟩
def arityMismatch : ErrorCode := ⟨302⟩
def unresolvedName : ErrorCode := ⟨303⟩
def expectationMismatch : ErrorCode := ⟨400⟩

/-- Each hundred of numbers from 200 to 499 has a category; all else is about grammar. -/
def category (c : ErrorCode) : Category :=
  if c.number / 100 = 2 then .hint
  else if c.number / 100 = 3 then .check
  else if c.number / 100 = 4 then .expectation
  else .grammar

/-- A code is shown as `E` and its number. -/
def text (c : ErrorCode) : String := "E" ++ toString c.number

end ErrorCode

/-- A fault at a place of the file at hand. -/
structure Issue where
  code : ErrorCode
  message : String
  span : Span
deriving DecidableEq

/-- A fault with all that is needed to show it. -/
structure Diagnostic where
  file : String
  code : ErrorCode
  message : String
  span : Span
  sourceLine : String
  suggestion : Option String := none
deriving DecidableEq

namespace Diagnostic

/-- The category is decided by the code. -/
def category (d : Diagnostic) : Category := d.code.category

/-- A diagnostic is shown as `line:column: code [category] message`. -/
def text (d : Diagnostic) : String :=
  d.span.text ++ ": " ++ d.code.text ++ " [" ++ d.category.text ++ "] " ++ d.message

end Diagnostic

/-- Looks up the line of an issue in its file. -/
def Issue.locate (f : SourceFile) (i : Issue) : Diagnostic :=
  { file := f.name, code := i.code, message := i.message, span := i.span, sourceLine := f.lineFor i.span }

/-- Diagnostics of one stage: those that are stored and the number of all. -/
structure Diagnostics where
  stored : List Diagnostic := []
  total : Nat := 0
deriving DecidableEq

namespace Diagnostics

/-- No diagnostics. -/
def empty : Diagnostics := ⟨[], 0⟩

def hasErrors (ds : Diagnostics) : Bool := 0 < ds.total

/-- No further diagnostic would be stored. -/
def isSaturated (ds : Diagnostics) : Bool := maxDiagnostics ≤ ds.total

/-- Stores a diagnostic if there is room, and counts it. -/
def push (ds : Diagnostics) (d : Diagnostic) : Diagnostics :=
  ⟨if ds.stored.length < maxDiagnostics then ds.stored ++ [d] else ds.stored, ds.total + 1⟩

@[simp] theorem total_push (ds : Diagnostics) (d : Diagnostic) : (ds.push d).total = ds.total + 1 := rfl

/-- Adds a list of diagnostics in order. -/
def pushAll (ds : Diagnostics) (list : List Diagnostic) : Diagnostics := list.foldl push ds

@[simp] theorem total_pushAll (ds : Diagnostics) (list : List Diagnostic) :
    (ds.pushAll list).total = ds.total + list.length := by
  induction list generalizing ds with
  | nil => rfl
  | cons d list ih =>
    have h := ih (ds.push d)
    rw [total_push] at h
    rw [List.length_cons, ← Nat.add_assoc, Nat.add_right_comm]
    exact h

/-- Adds the diagnostics of another stage; those it only counted are counted here too. -/
def extend (ds other : Diagnostics) : Diagnostics :=
  let all := ds.pushAll other.stored
  { all with total := all.total + (other.total - other.stored.length) }

/-- How many were counted and not stored. -/
def hidden (ds : Diagnostics) : Nat := ds.total - ds.stored.length

/-- The diagnostics of a list of issues. -/
def ofIssues (f : SourceFile) (issues : List Issue) : Diagnostics :=
  empty.pushAll (issues.map (Issue.locate f))

end Diagnostics

end AnnotationChecker
