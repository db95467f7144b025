import AnnotationChecker.Token
import AnnotationChecker.Diagnostic
/-!
# Reading tokens

A cursor holds the tokens that are left, the span of the last one that was taken, and how deep the
reading is nested. A parser takes tokens off a cursor; where it fails it reports one issue and leaves
the cursor where it stopped. `nested` reads one level deeper, up to `maxNesting`, and comes back to the
level it started from, also when it fails. `covered` sets the span of what was read.
-/

namespace AnnotationChecker

/-- The deepest nesting of brackets, parentheses and chains of `|`. -/
def maxNesting : Nat := 64

/-- A place in a list of tokens. -/
structure Cursor where
  rest : List Token
  prev : Span := Span.point 1 1
  depth : Nat := 0

namespace Cursor

/-- The token at the cursor; past the last token there is the end of the file. -/
def peek (c : Cursor) : Token := c.rest.headD ⟨.eof, Span.point 1 1⟩

/-- Takes one token. -/
def advance (c : Cursor) : Cursor :=
  match c.rest with
  | [] => c
  | t :: ts => { c with rest := ts, prev := t.span }

end Cursor

/-- Takes tokens off a cursor, or fails with an issue. -/
abbrev Parser := EStateM Issue Cursor

namespace Parser

/-- The kind of the token at the cursor. -/
def peek : Parser TokenKind := fun c => .ok c.peek.kind c

/-- The span of the token at the cursor. -/
def here : Parser Span := fun c => .ok c.peek.span c

/-- The span of the last token that was taken. -/
def prev : Parser Span := fun c => .ok c.prev c

/-- Takes one token. -/
def advance : Parser Unit := fun c => .ok () c.advance

/-- Fails at a span. -/
def rejectAt {α : Type} (span : Span) (code : ErrorCode) (message : String) : Parser α :=
  fun c => .error ⟨code, message, span⟩ c

/-- Fails at the cursor. -/
def reject {α : Type} (code : ErrorCode) (message : String) : Parser α :=
  fun c => .error ⟨code, message, c.peek.span⟩ c

/-- Fails at the cursor because of the token there. -/
def unexpected {α : Type} (wanted : String) : Parser α := fun c =>
  .error ⟨.unexpectedToken, "expected " ++ wanted ++ ", got '" ++ c.peek.kind.text ++ "'", c.peek.span⟩ c

/-- Is the token at the cursor of this kind? -/
def sees (k : TokenKind) : Parser Bool := fun c => .ok (c.peek.kind = k) c

/-- Takes the token at the cursor if it is of this kind. -/
def eat (k : TokenKind) : Parser Bool := fun c =>
  if c.peek.kind = k then .ok true c.advance else .ok false c

/-- Takes a token that has to be of this kind. -/
def expect (k : TokenKind) : Parser Unit := fun c =>
  if c.peek.kind = k then .ok () c.advance else unexpected ("'" ++ k.text ++ "'") c

/-- Fails because the nesting is at its limit. -/
def tooDeep {α : Type} : Parser α :=
  reject .nestingTooDeep ("maximum nesting depth is " ++ toString maxNesting)

/-- Goes one level deeper. -/
def enter : Parser Unit := fun c =>
  if maxNesting ≤ c.depth then tooDeep c else .ok () { c with depth := c.depth + 1 }

/-- Reads, and comes back to the level from before, whatever the outcome. -/
def levelled {α : Type} (p : Parser α) : Parser α := fun c =>
  match p c with
  | .ok a c' => .ok a { c' with depth := c.depth }
  | .error i c' => .error i { c' with depth := c.depth }

/-- Reads one level deeper. -/
def nested {α : Type} (p : Parser α) : Parser α := levelled do
  enter
  p

/-- Adds the span of the tokens that were taken. -/
def spanned {α : Type} (p : Parser α) : Parser (α × Span) := do
  let start ← here
  let a ← p
  let last ← prev
  pure (a, start.merge last)

/-- Gives what is read the span of the tokens that were taken for it. -/
def covered {α : Type} (p : Parser (Span → α)) : Parser α := do
  let (make, span) ← spanned p
  pure (make span)

/-- Items between commas, up to and without the closing token; a comma may stand behind the last one.
The number bounds how many items there are. -/
def commaLoop {α : Type} (close : TokenKind) (item : Parser α) : Nat → Parser (List α)
  | 0 => pure []
  | n + 1 => do
    let k ← peek
    if k = close ∨ k = .eof then pure []
    else
      let x ← item
      if ← eat (.mark .comma) then
        let xs ← commaLoop close item n
        pure (x :: xs)
      else pure [x]

/-- Items between commas. Each of them but the last takes a token for its comma, so there are no more
items than tokens. -/
def commaList {α : Type} (close : TokenKind) (item : Parser α) : Parser (List α) :=
  fun c => commaLoop close item c.rest.length c

/-! ## Names -/

/-- Takes an identifier. -/
def identifier : Parser (String × Span) := fun c =>
  match c.peek.kind with
  | .identifier name => .ok (name, c.peek.span) c.advance
  | _ => unexpected "identifier" c

/-- The parts of a dotted name after its first one. -/
def dottedTail (name : String) (span : Span) (depth : Nat) (prev : Span) :
    List Token → EStateM.Result Issue Cursor (String × Span)
  | ⟨.mark .dot, dot⟩ :: ts =>
    match ts with
    | ⟨.identifier part, s⟩ :: ts => dottedTail (name ++ "." ++ part) (span.merge s) depth s ts
    | ts => unexpected "identifier" ⟨ts, dot, depth⟩
  | ts => .ok (name, span) ⟨ts, prev, depth⟩

/-- Takes identifiers with dots between them, joined into one name. -/
def dottedName : Parser (String × Span) := do
  let (name, span) ← identifier
  fun c => dottedTail name span c.depth c.prev c.rest

end Parser

end AnnotationChecker
