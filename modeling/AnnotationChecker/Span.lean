/-!
# Places in a text

Lines and columns are 1-based and columns count characters. A `Position` is moved by the characters
that are read; a `Span` names its first and its last character. The span of a text that was read
from `p` to `q` is `Span.between p q`: it ends one column before `q`, or in column 1 when `q` opens
a line.

Lines and columns are natural numbers without a bound. Texts with fewer than 2^32 lines, and fewer than
2^32 columns in each of them, are meant; there a counter of 32 bits gives the same.
-/

namespace AnnotationChecker

/-- The place of one character. -/
structure Position where
  line : Nat
  col : Nat
deriving DecidableEq

namespace Position

/-- The first character of a text. -/
def start : Position := ⟨1, 1⟩

/-- The place after one character. -/
def step (p : Position) (c : Char) : Position :=
  if c = '\n' then ⟨p.line + 1, 1⟩ else ⟨p.line, p.col + 1⟩

/-- The place after a run of characters. -/
def after (p : Position) (cs : List Char) : Position := cs.foldl step p

@[simp] theorem after_nil (p : Position) : p.after [] = p := rfl

@[simp] theorem after_cons (p : Position) (c : Char) (cs : List Char) :
    p.after (c :: cs) = (p.step c).after cs := rfl

theorem after_append (p : Position) (cs ds : List Char) :
    p.after (cs ++ ds) = (p.after cs).after ds := by
  simp [after]

/-- Order of the text: by line, then by column. -/
def le (p q : Position) : Bool := p.line < q.line || (p.line == q.line && p.col ≤ q.col)

end Position

/-- A stretch of a text, from its first to its last character. -/
structure Span where
  startLine : Nat
  startCol : Nat
  endLine : Nat
  endCol : Nat
deriving DecidableEq

namespace Span

/-- The span of one place. -/
def point (line col : Nat) : Span := ⟨line, col, line, col⟩

/-- The place where a span starts. -/
def first (s : Span) : Position := ⟨s.startLine, s.startCol⟩

/-- The place where a span ends. -/
def last (s : Span) : Position := ⟨s.endLine, s.endCol⟩

/-- The span of what was read from `p` up to, and without, `q`. -/
def between (p q : Position) : Span := ⟨p.line, p.col, q.line, max (q.col - 1) 1⟩

/-- The zero-width span at a place. -/
def here (p : Position) : Span := point p.line p.col

/-- The smallest span that covers both. -/
def merge (a b : Span) : Span :=
  let p := if a.first.le b.first then a.first else b.first
  let q := if a.last.le b.last then b.last else a.last
  ⟨p.line, p.col, q.line, q.col⟩

/-- Does the span start on this line? -/
def startsOn (s : Span) (line : Nat) : Bool := s.startLine == line

/-- A span is shown by its start, as `line:column`. -/
def text (s : Span) : String := toString s.startLine ++ ":" ++ toString s.startCol

end Span

end AnnotationChecker
