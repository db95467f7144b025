import AnnotationChecker.Ty.Text
import AnnotationChecker.Registry
import AnnotationChecker.Diagnostic
/-!
# The meaning of type hints

A hint stands for a canonical type, or has a fault. `X | Y`, `Union` and `Optional` join types; `Literal`
joins the literals of its constants, which have one kind but for `None`; `Callable` takes a parameter list
and a result; every other subscript is a container of the registry. The modules that these names can be
imported from may stand before them.
-/

namespace AnnotationChecker

/-- What is wrong with a hint. -/
inductive HintFault where
  | floatLiteral (value : Binary64)
  | mixedLiteral (value : Literal) (expected : Primitive)
  | unknownType (name : String)
  | wrongArity (name expected : String) (found : Nat)
  | stringHint (text : String)
  | constantHint (value : Const)
  | strayList (text : String)
  | notGeneric (name : String)
  | paramsNotList (text : String)
  | notConstant (text : String)
deriving DecidableEq

namespace HintFault

/-- The code of a fault. -/
def code : HintFault → ErrorCode
  | .floatLiteral _ | .mixedLiteral _ _ => .invalidLiteralKind
  | .unknownType _ => .unknownType
  | .wrongArity _ _ _ => .wrongTypeArity
  | .stringHint _ | .constantHint _ | .strayList _ | .notGeneric _ | .paramsNotList _ | .notConstant _ =>
    .malformedHint

/-- What a message says behind the kind of a fault. -/
def detail : HintFault → String
  | .floatLiteral v => "float value '" ++ v.text ++ "' cannot be a literal type"
  | .mixedLiteral v k =>
    "'" ++ v.text ++ "' is " ++ v.kind.text ++ ", but this Literal holds " ++ k.text ++ " values"
  | .unknownType name => "'" ++ name ++ "'"
  | .wrongArity name expected found =>
    "'" ++ name ++ "' expects " ++ expected ++ " type argument(s), found " ++ toString found
  | .stringHint s => "string annotation " ++ Text.quote s ++ " is not supported"
  | .constantHint c => "'" ++ c.text ++ "' is not a type; did you mean Literal[" ++ c.text ++ "]?"
  | .strayList s => "parameter list '" ++ s ++ "' is only valid as the first argument of Callable"
  | .notGeneric name => "'" ++ name ++ "' is not generic"
  | .paramsNotList s => "Callable parameters must be a list such as [int, str], found '" ++ s ++ "'"
  | .notConstant s => "Literal[...] accepts only constants, found '" ++ s ++ "'"

/-- The message of a fault. -/
def message (f : HintFault) : String :=
  match f with
  | .floatLiteral _ | .mixedLiteral _ _ => "invalid literal: " ++ f.detail
  | .unknownType _ => "unknown type " ++ f.detail
  | .wrongArity _ _ _ => f.detail
  | _ => "malformed annotation: " ++ f.detail

end HintFault

namespace Hint

/-! ## Names -/

/-- The modules that may stand before a name, with their dots. -/
def modules : List String := ["typing.", "collections.abc.", "builtins."]

/-- What follows a module in a name. -/
def afterModule? (name module : String) : Option String :=
  if module.toList.isPrefixOf name.toList then some (String.ofList (name.toList.drop module.length)) else none

/-- A name without the module before it. -/
def stripModule (name : String) : String := (modules.findSome? (afterModule? name)).getD name

/-- The type that a bare name stands for. -/
def named (r : Registry) (name : String) : Except HintFault Ty :=
  match Primitive.ofName? name with
  | some k => .ok (.primitive k)
  | none =>
    if name = "Never" ∨ name = "NoReturn" then .ok .never
    else if name = "Union" ∨ name = "Literal" then .error (.wrongArity name "at least 1" 0)
    else if name = "Optional" then .error (.wrongArity name "1" 0)
    else if name = "Callable" then .error (.wrongArity name "2" 0)
    else if (r.resolve? name).isSome then .error (.wrongArity name "1" 0)
    else .error (.unknownType name)

/-! ## Literals -/

mutual

/-- The constants of an argument of `Literal`, those of a nested `Literal` in its place. `None` is no
literal value. -/
def constants : Hint → Except HintFault (List (Option Literal))
  | .const _ c =>
    match c with
    | .int v => .ok [some (.int v)]
    | .str s => .ok [some (.str s)]
    | .bool b => .ok [some (.bool b)]
    | .none => .ok [none]
    | .float v => .error (.floatLiteral v)
  | .subscript s base args =>
    if stripModule base = "Literal" then constantsList args
    else .error (.notConstant (text (.subscript s base args)))
  | .name _ n => .error (.notConstant n)
  | .list s items => .error (.notConstant (text (.list s items)))
  | .or s l r => .error (.notConstant (text (.or s l r)))

/-- The constants of the arguments of `Literal`. -/
def constantsList : List Hint → Except HintFault (List (Option Literal))
  | [] => .ok []
  | h :: hs => do
    let vs ← constants h
    let ws ← constantsList hs
    .ok (vs ++ ws)

end

/-- The types of constants that have one kind, but for `None`: the given one, or that of the first. -/
def literalTypes : Option Primitive → List (Option Literal) → Except HintFault (List Ty)
  | _, [] => .ok []
  | k, none :: vs => do
    let ts ← literalTypes k vs
    .ok (Ty.none :: ts)
  | none, some v :: vs => do
    let ts ← literalTypes (some v.kind) vs
    .ok (.literal v :: ts)
  | some k, some v :: vs =>
    if v.kind = k then do
      let ts ← literalTypes (some k) vs
      .ok (.literal v :: ts)
    else .error (.mixedLiteral v k)

/-- The type of `Literal` with arguments. -/
def literalUnion (args : List Hint) : Except HintFault Ty := do
  let vs ← constantsList args
  let ts ← literalTypes none vs
  .ok (.join ts)

/-! ## Hints -/

/-- What a subscript is about. -/
inductive Form where
  | union
  | optional
  | literal
  | callable
  | generic
deriving DecidableEq

/-- The form of a subscript, by its base. -/
def Form.ofBase (base : String) : Form :=
  if base = "Union" then .union
  else if base = "Optional" then .optional
  else if base = "Literal" then .literal
  else if base = "Callable" then .callable
  else .generic

/-- The fault of a subscript whose base is no constructor. -/
def notContainer (base : String) : HintFault :=
  if (Primitive.ofName? base).isSome then .notGeneric base else .unknownType base

mutual

/-- The type that a hint stands for. -/
def meaning (r : Registry) : Hint → Except HintFault Ty
  | .name _ n => named r (stripModule n)
  | .subscript _ base args =>
    match Form.ofBase (stripModule base) with
    | .union => do
      let ts ← meanings r args
      .ok (.join ts)
    | .optional =>
      match args with
      | [h] => do
        let t ← meaning r h
        .ok t.optional
      | args => .error (.wrongArity (stripModule base) "1" args.length)
    | .literal => literalUnion args
    | .callable =>
      match args with
      | [params, ret] =>
        match params with
        | .list _ ps => do
          let ts ← meanings r ps
          let t ← meaning r ret
          .ok (.callable ts t)
        | params => .error (.paramsNotList (text params))
      | args => .error (.wrongArity "Callable" "2" args.length)
    | .generic =>
      match r.resolve? (stripModule base) with
      | some (ctor, spec) =>
        match args with
        | [h] => do
          let t ← meaning r h
          .ok (.container ctor t spec.variance)
        | args => .error (.wrongArity (stripModule base) "1" args.length)
      | none => .error (notContainer (stripModule base))
  | .list s items => .error (.strayList (text (.list s items)))
  | .or _ left right => do
    let t ← meaning r left
    let u ← meaning r right
    .ok (.join [t, u])
  | .const _ c =>
    match c with
    | .none => .ok Ty.none
    | .str s => .error (.stringHint s)
    | c => .error (.constantHint c)

/-- The types that a list of hints stands for. -/
def meanings (r : Registry) : List Hint → Except HintFault (List Ty)
  | [] => .ok []
  | h :: hs => do
    let t ← meaning r h
    let ts ← meanings r hs
    .ok (t :: ts)

end

end Hint

end AnnotationChecker
