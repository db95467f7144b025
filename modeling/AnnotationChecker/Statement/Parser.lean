import AnnotationChecker.Hint.Parser
import AnnotationChecker.Statement.Line
import AnnotationChecker.Token.Lexer
/-!
# Reading statements

    Line      = Import | Statement [ Comment ] Newline
    Statement = Ident ":" Hint [ "=" Expr ] | Ident "=" Expr | Ident "(" Args ")" | Function | "pass"
    Function  = "def" Ident "(" [ Param { "," Param } [ "," ] ] ")" "->" Hint ":" Body
    Param     = Ident ":" Hint
    Import    = "import" Dotted [ "as" Ident ] { "," Dotted [ "as" Ident ] }
              | "from" Dotted "import" ( "*" | Names | "(" Names ")" )

Statements start in the first column. A line that cannot be read is reported and dropped with the
indented lines below it; reading goes on with the next line until as many issues are found as are
stored.
-/

namespace AnnotationChecker

open AnnotationChecker.Parser

/-! ## Declarations, assignments, calls -/

/-- `name: T` or `name: T = value`. -/
def declarationParser : Parser StatementKind := do
  let (name, s) ← identifier
  expect (.mark .colon)
  let hint ← Hint.parser
  if ← eat (.mark .equals) then
    let value ← Expr.parser
    pure (.declare ⟨name, s⟩ hint (some value))
  else pure (.declare ⟨name, s⟩ hint none)

/-- `name = value`. -/
def assignmentParser : Parser StatementKind := do
  let (name, s) ← identifier
  expect (.mark .equals)
  let value ← Expr.parser
  pure (.assign ⟨name, s⟩ value)

/-- `f(value, ...)`. -/
def callStatementParser : Parser StatementKind := do
  let (callee, args) ← Expr.callParser
  pure (.call callee args)

/-! ## Functions -/

/-- A parameter of the function `f`, given the parser for its hint. Markers and default values are refused. -/
def paramWith (f : String) (hint : Parser Hint) : Parser Param := do
  match ← peek with
  | .operator c =>
    if c = '*' ∨ c = '/' then
      reject .unexpectedToken ("parameter marker '" ++ c.toString ++ "' is not supported")
    else unexpected "identifier"
  | _ =>
    let (name, s) ← identifier
    if ← eat (.mark .colon) then
      let h ← hint
      if ← sees (.mark .equals) then
        reject .unexpectedToken ("default value for parameter '" ++ name ++ "' is not supported")
      else pure ⟨⟨name, s⟩, h⟩
    else
      rejectAt s .missingHint ("parameter '" ++ name ++ "' of '" ++ f ++ "' needs a type annotation")

/-- A parameter of the function `f`. -/
def paramParser (f : String) : Parser Param := paramWith f Hint.parser

/-- The signature of a function, from `def` to the colon. -/
def signatureParser : Parser StatementKind := do
  advance
  let (name, s) ← identifier
  expect (.mark .leftParen)
  let params ← commaList (.mark .rightParen) (paramParser name)
  expect (.mark .rightParen)
  if ← eat (.mark .arrow) then
    let ret ← Hint.parser
    expect (.mark .colon)
    pure (.define ⟨name, s⟩ params ret)
  else reject .missingHint ("function '" ++ name ++ "' needs a return annotation")

/-! ## Imports -/

/-- An imported name, with an optional new name. -/
def importedName (name : Parser (String × Span)) : Parser Unit := do
  let _ ← name
  if ← eat (.keyword .asWord) then
    let _ ← identifier
    pure ()
  else pure ()

/-- Imported names. The number bounds how many there are. -/
def importLoop (name : Parser (String × Span)) : Nat → Parser Unit
  | 0 => pure ()
  | n + 1 => do
    importedName name
    if ← eat (.mark .comma) then
      if ← sees (.mark .rightParen) then pure () else importLoop name n
    else pure ()

/-- Imported names; each of them takes a token. -/
def importNames (name : Parser (String × Span)) : Parser Unit := fun c => importLoop name c.rest.length c

/-- `import a.b as c, d`. -/
def importParser : Parser Unit := do
  advance
  importNames dottedName

/-- `from a.b import c as d, e`. -/
def fromParser : Parser Unit := do
  advance
  let _ ← dottedName
  expect (.keyword .importWord)
  if ← eat (.operator '*') then pure ()
  else if ← eat (.mark .leftParen) then
    importNames identifier
    expect (.mark .rightParen)
  else importNames identifier

/-! ## Lines -/

/-- What reading a line gives: a statement, issues, and the tokens after it. -/
structure Line where
  statement : Option Statement
  issues : List Issue
  rest : List Token

namespace Line

/-- A line without a statement. -/
def bare (e : Ending) : Line := ⟨none, e.issues, e.rest⟩

/-- A line that cannot be read, with the tokens after it. -/
def broken (i : Issue) (rest : List Token) : Line := ⟨none, [i], rest⟩

/-- A statement with its line's end. -/
def ended (kind : StatementKind) (span : Span) (e : Ending) : Line :=
  ⟨some ⟨kind, span, e.expectation⟩, e.issues, e.rest⟩

/-- Drops a broken statement, and the block below it. -/
def brokenStatement (i : Issue) (c : Cursor) : Line := broken i (skipBlock (drop c.rest)).2

/-- Reads a statement of one line. -/
def ofStatement (p : Parser StatementKind) (ts : List Token) : Line :=
  match spanned p ⟨ts, Span.point 1 1, 0⟩ with
  | .ok (kind, span) c => ended kind span (finish c.rest)
  | .error i c => brokenStatement i c

/-- Does a body stand on the line of its header? -/
def hasInlineBody (ts : List Token) : Bool :=
  !endsHere ts && !((head ts).kind.isComment && endsHere (ts.drop 1))

/-- The issue of a function without a body. -/
def missingBody (name : String) (span : Span) : Issue :=
  ⟨.unexpectedIndent, "expected an indented block after 'def " ++ name ++ "'", span⟩

/-- The name that a statement starts with. -/
def leadName : StatementKind → String
  | .declare x _ _ | .assign x _ | .call x _ | .define x _ _ => x.name

/-- A function whose body is the block below its signature, once the line of the signature is ended. -/
def withBlock (kind : StatementKind) (span : Span) (e : Ending) : Line :=
  let block := skipBlock e.rest
  let missing := if block.1 = 0 then [missingBody (leadName kind) span] else []
  ended kind span ⟨e.expectation, e.issues ++ missing, block.2⟩

/-- Reads a function: its signature, and a body on the same line or as a block below. -/
def ofFunction (ts : List Token) : Line :=
  match spanned signatureParser ⟨ts, Span.point 1 1, 0⟩ with
  | .ok (kind, span) c =>
    if hasInlineBody c.rest then ended kind span (finish (skipInline c.rest)) else withBlock kind span (finish c.rest)
  | .error i c => brokenStatement i c

/-- Reads a line that imports whole modules. A line that cannot be read is not dropped: reading goes on
where it stopped. -/
def ofImport (ts : List Token) : Line :=
  match importParser ⟨ts, Span.point 1 1, 0⟩ with
  | .ok _ c => bare (finish c.rest)
  | .error i c => broken i c.rest

/-- Reads a line that imports names from a module. -/
def ofFrom (ts : List Token) : Line :=
  match fromParser ⟨ts, Span.point 1 1, 0⟩ with
  | .ok _ c => bare (finish c.rest)
  | .error i c => broken i (drop c.rest)

/-- The issue of a line that no statement starts with. -/
def noStatement (t : Token) : Issue :=
  ⟨.unexpectedToken, "expected a declaration, assignment, call or 'def', got '" ++ t.kind.text ++ "'", t.span⟩

/-- Reads the line at the front of the tokens, which is neither blank nor the end of the file. -/
def read (ts : List Token) : Line :=
  let t := head ts
  if 1 < t.span.startCol then broken ⟨.unexpectedIndent, "unexpected indent", t.span⟩ (drop ts)
  else match t.kind, (head (ts.drop 1)).kind with
    | .keyword .importWord, _ => ofImport ts
    | .keyword .fromWord, _ => ofFrom ts
    | .keyword .passWord, _ => bare (finish (ts.drop 1))
    | .keyword .defWord, _ => ofFunction ts
    | .identifier _, .mark .colon => ofStatement declarationParser ts
    | .identifier _, .mark .equals => ofStatement assignmentParser ts
    | .identifier _, .mark .leftParen => ofStatement callStatementParser ts
    | _, _ => brokenStatement (noStatement t) ⟨ts, Span.point 1 1, 0⟩

end Line

/-! ## Modules -/

/-- The statements of a module and what is wrong with it, both in order. -/
structure Parsed where
  statements : List Statement
  issues : List Issue

namespace Parsed

/-- The statement and the issues of a line in front. -/
def after (l : Line) (p : Parsed) : Parsed := ⟨l.statement.toList ++ p.statements, l.issues ++ p.issues⟩

/-- Reads lines, when `found` issues were found before. The first number bounds how many there are. -/
def ofLines : (room : Nat) → (found : Nat) → List Token → Parsed
  | 0, _, _ => ⟨[], []⟩
  | room + 1, found, ts =>
    let ts := Line.skipBlank ts
    if (Line.head ts).kind = .eof ∨ maxDiagnostics ≤ found then ⟨[], []⟩
    else
      let l := Line.read ts
      (ofLines room (found + l.issues.length) l.rest).after l

/-- Reads a module. Every line takes a token. -/
def ofTokens (ts : List Token) : Parsed := ofLines (ts.length + 1) 0 ts

/-- Reads the tokens of a file. -/
def ofFile (f : SourceFile) : Parsed := ofTokens (Lexed.ofFile f).tokens

end Parsed

end AnnotationChecker
