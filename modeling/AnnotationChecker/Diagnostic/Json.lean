import AnnotationChecker.Diagnostic
import AnnotationChecker.Json
/-!
# Diagnostics as JSON

A span is written as four members of the object it belongs to. A suggestion is left out when there is
none.
-/

namespace AnnotationChecker

/-- The members that a span adds to an object. -/
def Span.members (s : Span) : List (String × Json) :=
  [("line", .nat s.startLine), ("column", .nat s.startCol), ("end_line", .nat s.endLine),
    ("end_column", .nat s.endCol)]

/-- A span as an object of its own. -/
def Span.toJson (s : Span) : Json := .object s.members

/-- A diagnostic with its category. -/
def Diagnostic.toJson (d : Diagnostic) : Json :=
  .object ([("file", .string d.file), ("code", .nat d.code.number), ("category", .string d.category.text),
    ("message", .string d.message)] ++ d.span.members ++ [("source_line", .string d.sourceLine)]
    ++ Json.optional "suggestion" (d.suggestion.map .string))

/-- The stored diagnostics and the number of all. -/
def Diagnostics.toJson (ds : Diagnostics) : Json :=
  .object [("errors", .array (ds.stored.map Diagnostic.toJson)), ("total_errors", .nat ds.total)]

end AnnotationChecker
