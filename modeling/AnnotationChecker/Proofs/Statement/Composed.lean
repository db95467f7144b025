import AnnotationChecker.Statement.Parser
/-!
# How parsers are put together

Everything that a line is read with is put together from a few basic parsers in a few ways: expressions, hints, the
statements of one line, the signature of a function and imports. `Parser.Composed` says how, and relates two parsers that
differ only in what they read the inside with. What holds of the basic parsers and is kept by every way to put them
together holds of all of them, by induction.
-/

namespace AnnotationChecker

open AnnotationChecker.Parser

namespace Parser

/-- The parsers that others are put together from. None of them takes a token that ends a line. -/
inductive Basic : {α : Type} → Parser α → Prop
  | pure {α : Type} (a : α) : Basic (Pure.pure a : Parser α)
  | sees (k : TokenKind) : Basic (Parser.sees k)
  | reject {α : Type} (code : ErrorCode) (message : String) : Basic (Parser.reject code message : Parser α)
  | unexpected {α : Type} (wanted : String) : Basic (Parser.unexpected wanted : Parser α)
  | eat {k : TokenKind} (hk : k.isLineEnd = false) : Basic (Parser.eat k)
  | expect {k : TokenKind} (hk : k.isLineEnd = false) : Basic (Parser.expect k)
  | identifier : Basic Parser.identifier
  | dottedName : Basic Parser.dottedName
  | adjacentStrings (first : String) : Basic (Parser.adjacentStrings first)

/-- Two parsers that are put together in the same way, only that one of them reads with `q` what the other one reads with
`p`. If `deepens` is set they may stop at a deeper level than they start at; if `more` is set they are started only where
the token at the cursor does not end the line. -/
inductive Composed {ι : Type} (q p : Parser ι) : (deepens more : Bool) → {α : Type} → Parser α → Parser α → Prop
  | inner {d m : Bool} : Composed q p d m q p
  | basic {d m : Bool} {α : Type} {x : Parser α} (h : Basic x) : Composed q p d m x x
  | bind {d m : Bool} {α β : Type} {x y : Parser α} {f g : α → Parser β} (h : Composed q p d m x y)
      (hf : ∀ a, Composed q p d false (f a) (g a)) : Composed q p d m (x >>= f) (y >>= g)
  /-- Looking at the next token, and going on in a way that depends on it. -/
  | look {d m : Bool} {α : Type} {f g : TokenKind → Parser α} (hf : ∀ k, Composed q p d (!k.isLineEnd) (f k) (g k)) :
      Composed q p d m (peek >>= f) (peek >>= g)
  /-- Looking at the token behind the next one. -/
  | lookBehind {d : Bool} {α : Type} {k : TokenKind} {f g : Bool → Parser α}
      (hf : ∀ b, Composed q p d true (f b) (g b)) : Composed q p d true (Expr.seesNext k >>= f) (Expr.seesNext k >>= g)
  | take {d : Bool} {α : Type} {x y : Parser α} (h : Composed q p d false x y) :
      Composed q p d true (do advance; x) (do advance; y)
  /-- A name with a token of some kind behind it. Without that token the name itself is to blame. -/
  | named {d m : Bool} {α : Type} {k : TokenKind} (hk : k.isLineEnd = false) {f g : String × Span → Parser α}
      {code : ErrorCode} {message : String × Span → String} (hf : ∀ name, Composed q p d false (f name) (g name)) :
      Composed q p d m (do let name ← identifier; if ← eat k then f name else rejectAt name.2 code (message name))
        (do let name ← identifier; if ← eat k then g name else rejectAt name.2 code (message name))
  | spanned {d m : Bool} {α : Type} {x y : Parser α} (h : Composed q p d m x y) :
      Composed q p d m (spanned x) (spanned y)
  | commaList {d m : Bool} {α : Type} {close : TokenKind} {x y : Parser α} (h : Composed q p d false x y) :
      Composed q p d m (commaList close x) (commaList close y)
  | importNames {d m : Bool} {x : Parser (String × Span)} (h : Composed q p d false x x) :
      Composed q p d m (importNames x) (importNames x)
  | enter {m : Bool} : Composed q p true m enter enter
  | levelled {d m : Bool} {α : Type} {x : Parser α} (h : Composed q p true m x x) :
      Composed q p d m (levelled x) (levelled x)
  /-- Reading by how many levels there are above. -/
  | atLevel {d m : Bool} {α : Type} {x : Nat → Parser α} (h : ∀ n, Composed q p d m (x n) (x n)) :
      Composed q p d m (fun c => x c.depth c) (fun c => x c.depth c)

/-- A parser that is put together from basic ones alone. -/
abbrev Whole {α : Type} (more : Bool) (x : Parser α) : Prop :=
  Composed (Pure.pure () : Parser Unit) (Pure.pure ()) false more x x

namespace Composed

variable {ι α β : Type} {q p : Parser ι} {d m : Bool} {x y x' y' : Parser α}

theorem pure (a : α) : Composed q p d m (Pure.pure a) (Pure.pure a) := .basic (.pure a)

theorem reject (code : ErrorCode) (message : String) :
    Composed q p d m (Parser.reject code message : Parser α) (Parser.reject code message) := .basic (.reject code message)

theorem unexpected (wanted : String) :
    Composed q p d m (Parser.unexpected wanted : Parser α) (Parser.unexpected wanted) := .basic (.unexpected wanted)

theorem tooDeep : Composed q p d m (Parser.tooDeep : Parser α) Parser.tooDeep := .reject _ _

theorem ite {P : Prop} [Decidable P] (h : Composed q p d m x y) (h' : Composed q p d m x' y') :
    Composed q p d m (if P then x else x') (if P then y else y') := by
  by_cases hP : P
  · rwa [if_pos hP, if_pos hP]
  · rwa [if_neg hP, if_neg hP]

/-- Taking a token of some kind if it is there, and going on in one of two ways. -/
theorem ifEats {k : TokenKind} (hk : k.isLineEnd = false) (h : Composed q p d false x y) (h' : Composed q p d false x' y') :
    Composed q p d m (do if ← eat k then x else x') (do if ← eat k then y else y') :=
  .bind (.basic (.eat hk)) fun _ => .ite h h'

/-- Taking a token that has to be there. -/
theorem expects {k : TokenKind} (hk : k.isLineEnd = false) (h : Composed q p d false x y) :
    Composed q p d m (do expect k; x) (do expect k; y) :=
  .bind (.basic (.expect hk)) fun _ => h

theorem covered {x y : Parser (Span → α)} (h : Composed q p d m x y) :
    Composed q p d m (Parser.covered x) (Parser.covered y) :=
  .bind (.spanned h) fun _ => .pure _

theorem nested (h : Composed q p true false x x) : Composed q p d m (Parser.nested x) (Parser.nested x) :=
  .levelled (.bind .enter fun _ => h)

theorem negated (int : Int → α) (float : Binary64 → α) :
    Composed q p d m (Parser.negated int float) (Parser.negated int float) := by
  refine .look fun k => ?_
  split
  next => exact .take (.pure _)
  next => exact .take (.pure _)
  next => exact .unexpected _

end Composed

end Parser

/-! ## Expressions -/

namespace Expr

variable {ι : Type} {q p : Parser ι} {d m : Bool} {x y : Parser Expr}

section

variable (h : Composed q p d false x y)

include h

theorem composed_item : Composed q p d false (item x) (item y) :=
  .bind h fun _ => .bind (.basic (.sees _)) fun _ => .ite (.reject _ _) (.pure _)

theorem composed_items (close : Mark) : Composed q p d m (items x close) (items y close) :=
  .bind (.commaList (composed_item h)) fun _ => .expects rfl (.pure _)

theorem composed_callWith : Composed q p d m (callWith x) (callWith y) :=
  .bind (.basic .identifier) fun _ => .expects rfl (.bind (composed_items h _) fun _ => .pure _)

theorem composed_body : Composed q p d m (body x) (body y) := by
  refine .look fun k => ?_
  split
  next => exact .take (.pure _)
  next => exact .take (.pure _)
  next => exact .take (.negated _ _)
  next => exact .take (.bind (.basic (.adjacentStrings _)) fun _ => .pure _)
  next => exact .take (.pure _)
  next => exact .take (.pure _)
  next => exact .take (.pure _)
  next => exact .take (.pure _)
  next => exact .take (.pure _)
  next => exact .take (.bind (composed_items h _) fun _ => .pure _)
  next => exact .take (.bind h fun _ => .expects rfl (.pure _))
  next =>
    refine .lookBehind fun called => .ite ?_ ?_
    · exact .bind (composed_callWith h) fun _ => .pure _
    · exact .take (.bind (.basic (.sees _)) fun _ => .ite (.reject _ _) (.pure _))
  next => exact .unexpected _

end

theorem composed_parserWithin (room : Nat) : Composed q p d m (parserWithin room) (parserWithin room) := by
  induction room generalizing d m with
  | zero => exact .tooDeep
  | succ room ih => exact .nested (.covered (composed_body ih))

theorem parser_composed : Composed q p d m parser parser :=
  .atLevel fun n => composed_parserWithin (maxNesting - n)

end Expr

/-! ## Hints -/

namespace Hint

variable {ι : Type} {q p : Parser ι} {d m : Bool} {x y : Parser Hint}

theorem composed_constant : Composed q p d m constant constant := by
  refine .look fun k => ?_
  split
  next => exact .take (.pure _)
  next => exact .take (.pure _)
  next => exact .take (.pure _)
  next => exact .take (.pure _)
  next => exact .take (.pure _)
  next => exact .take (.pure _)
  next => exact .take (.negated _ _)
  next => exact .unexpected _

theorem composed_body (h : Composed q p d false x y) : Composed q p d m (body x) (body y) := by
  refine .look fun k => ?_
  split
  next =>
    refine .bind (.basic .dottedName) fun _ => .ifEats rfl (.bind (.commaList h) fun _ => ?_) (.pure _)
    exact .ite (.reject _ _) (.expects rfl (.pure _))
  next => exact .take (.bind (.commaList h) fun _ => .expects rfl (.pure _))
  next => exact .take (.bind h fun _ => .expects rfl (.pure _))
  next => exact .bind composed_constant fun _ => .pure _

/-- The levels that the marks of a chain take are left to the hint that the chain belongs to. -/
theorem composed_atom_and_chain (room : Nat) :
    (∀ {d m}, Composed q p d m (atomWithin room) (atomWithin room)) ∧
      ∀ {m} left, Composed q p true m (chainWithin room left) (chainWithin room left) := by
  induction room with
  | zero => exact ⟨.tooDeep, fun _ => .ifEats rfl .tooDeep (.pure _)⟩
  | succ room ih =>
    obtain ⟨hatom, hchain⟩ := ih
    constructor
    · exact .nested (.covered (composed_body (.levelled (.bind hatom fun _ => hchain _))))
    · intro m left
      exact .ifEats rfl (.bind .enter fun _ => .bind hatom fun _ => hchain _) (.pure _)

theorem composed_parserWithin (room : Nat) : Composed q p d m (parserWithin room) (parserWithin room) := by
  obtain ⟨hatom, hchain⟩ := composed_atom_and_chain room
  exact .levelled (.bind hatom fun _ => hchain _)

theorem parser_composed : Composed q p d m parser parser :=
  .atLevel fun n => composed_parserWithin (maxNesting - n)

end Hint

/-! ## Statements -/

section

variable {ι : Type} {q p : Parser ι} {d m : Bool}

theorem composed_declarationParser : Composed q p d m declarationParser declarationParser :=
  .bind (.basic .identifier) fun _ => .expects rfl (.bind Hint.parser_composed fun _ =>
    .ifEats rfl (.bind Expr.parser_composed fun _ => .pure _) (.pure _))

theorem composed_assignmentParser : Composed q p d m assignmentParser assignmentParser :=
  .bind (.basic .identifier) fun _ => .expects rfl (.bind Expr.parser_composed fun _ => .pure _)

theorem composed_callStatementParser : Composed q p d m callStatementParser callStatementParser :=
  .bind (Expr.composed_callWith Expr.parser_composed) fun _ => .pure _

/-- A parameter without its annotation is to blame itself. -/
theorem composed_paramWith (f : String) {x y : Parser Hint} (h : Composed q p d false x y) :
    Composed q p d m (paramWith f x) (paramWith f y) := by
  refine .look fun k => ?_
  split
  next => exact .ite (.reject _ _) (.unexpected _)
  next => exact .named rfl fun _ => .bind h fun _ => .bind (.basic (.sees _)) fun _ => .ite (.reject _ _) (.pure _)

theorem composed_signatureParser : Composed q p d true signatureParser signatureParser := by
  refine .take (.bind (.basic .identifier) fun _ => .expects rfl ?_)
  refine .bind (.commaList (composed_paramWith _ Hint.parser_composed)) fun _ => .expects rfl (.ifEats rfl ?_ (.reject _ _))
  exact .bind Hint.parser_composed fun _ => .expects rfl (.pure _)

theorem composed_importParser : Composed q p d true importParser importParser :=
  .take (.importNames (.basic .dottedName))

theorem composed_fromParser : Composed q p d true fromParser fromParser := by
  have hnames : ∀ {m}, Composed q p d m (importNames identifier) (importNames identifier) :=
    .importNames (.basic .identifier)
  refine .take (.bind (.basic .dottedName) fun _ => .expects rfl (.ifEats rfl (.pure _) (.ifEats rfl ?_ hnames)))
  exact .bind hnames fun _ => .basic (.expect rfl)

end

end AnnotationChecker
