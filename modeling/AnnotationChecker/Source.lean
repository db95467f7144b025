import AnnotationChecker.Span
/-!
# Source files

A file is a name and a text. Its lines end at line feeds, and carriage returns at the end of a line
do not belong to it; a text without any line feed is one line, so every file has a first line.
-/

namespace AnnotationChecker

/-- Cuts a text at every line feed, which belongs to neither side. -/
def splitLines : List Char → List (List Char)
  | [] => [[]]
  | c :: cs =>
    if c = '\n' then [] :: splitLines cs
    else match splitLines cs with
      | [] => [[c]]
      | l :: ls => (c :: l) :: ls

/-- A line without the carriage returns at its end. -/
def trimReturns (cs : List Char) : List Char :=
  (cs.reverse.dropWhile (· == '\r')).reverse

/-- A file held in memory. -/
structure SourceFile where
  name : String
  text : String

namespace SourceFile

/-- The lines of a file, each without its end. -/
def lines (f : SourceFile) : List (List Char) := (splitLines f.text.toList).map trimReturns

/-- The text of a line, counted from 1. -/
def line? (f : SourceFile) : Nat → Option String
  | 0 => none
  | n + 1 => f.lines[n]?.map String.ofList

/-- The text of the line on which a span starts; empty when there is no such line. -/
def lineFor (f : SourceFile) (s : Span) : String := (f.line? s.startLine).getD ""

/-- How many lines the file has. -/
def lineCount (f : SourceFile) : Nat := (splitLines f.text.toList).length

end SourceFile

end AnnotationChecker
