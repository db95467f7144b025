import AnnotationChecker.Binding
import AnnotationChecker.Hint.Meaning
import AnnotationChecker.Ty.Subtyping
import AnnotationChecker.Verdict
/-!
# Checking statements

Every statement gets one verdict, and a rejected one does not stop the check.

* `x: T = e` is accepted when `e` has a type below `T`, and binds `x` to `T` in any case;
* `x: T` is accepted and binds `x`;
* `x = e` is accepted when `e` has a type below that of `x`;
* `f(e, ...)` is accepted when `f` is callable with these arguments;
* `def f(...) -> T` is accepted and binds `f`.

A declaration with a fault in a hint is rejected and binds nothing.
-/

namespace AnnotationChecker

/-- Why a statement is rejected, from the innermost cause outwards. -/
inductive Rejection where
  | badHint (text : String) (fault : HintFault)
  | unresolved (name : String)
  | notCallable (name : String) (found : Ty)
  | arity (name : String) (expected found : Nat)
  | outOfRange (value : Literal) (declared : Ty)
  | mismatch (declared found : Ty)
  | inParameter (name : String) (cause : Rejection)
  | inReturn (cause : Rejection)
  | inArgument (index : Nat) (callee : String) (cause : Rejection)
deriving DecidableEq

namespace Rejection

def reason : Rejection → Reason
  | .badHint _ _ => .invalidHint
  | .unresolved _ => .unresolvedName
  | .notCallable _ _ => .kindMismatch
  | .arity _ _ _ => .arityMismatch
  | .outOfRange _ _ => .literalOutOfRange
  | .mismatch _ _ => .kindMismatch
  | .inParameter _ c | .inReturn c | .inArgument _ _ c => c.reason

/-- The code of a fault in a hint is that of the fault, any other one follows from the reason. -/
def code : Rejection → ErrorCode
  | .badHint _ f => f.code
  | .inParameter _ c | .inReturn c | .inArgument _ _ c => c.code
  | c => c.reason.code

def message : Rejection → String
  | .badHint text f => "in annotation '" ++ text ++ "': " ++ f.message
  | .unresolved name => "name '" ++ name ++ "' is not defined"
  | .notCallable name t => "'" ++ name ++ "' has type " ++ t.text ++ ", which is not callable"
  | .arity name expected found =>
    "'" ++ name ++ "' takes " ++ toString expected ++ " argument" ++ (if expected = 1 then "" else "s")
      ++ ", got " ++ toString found
  | .outOfRange v t => v.text ++ " is not one of " ++ t.text
  | .mismatch declared found => "expected " ++ declared.text ++ ", found " ++ found.text
  | .inParameter name c => "parameter '" ++ name ++ "': " ++ c.message
  | .inReturn c => "return type: " ++ c.message
  | .inArgument i callee c => "argument " ++ toString i ++ " of '" ++ callee ++ "': " ++ c.message

/-- The verdict on a statement that is rejected. -/
def verdict (c : Rejection) (index : Nat) (span : Span) : Verdict :=
  (Verdict.err index span c.reason c.message).withCode c.code

end Rejection

namespace Checker

/-! ## Types of expressions -/

/-- Why a value of one type does not fit another one: a literal that is missing among literals of its own
kind is out of their range. -/
def misfit (found declared : Ty) : Rejection :=
  match found.literal? with
  | some v =>
    if declared.literals.any fun l => l.kind = v.kind then .outOfRange v declared else .mismatch declared found
  | none => .mismatch declared found

/-- A value fits when its type is below the declared one. -/
def fits (r : Registry) (found declared : Ty) : Except Rejection Unit :=
  if Ty.isSubtype r found declared then .ok () else .error (misfit found declared)

/-- The type of a list display with elements of a type. -/
def listOf (r : Registry) (element : Ty) : Ty :=
  match r.resolve? r.listDisplay with
  | some (ctor, spec) => .container ctor element spec.variance
  | none => .container r.listDisplay element .invariant

/-- The type of a name. -/
def typeOfName (env : Bindings) (name : String) : Except Rejection Ty :=
  match env.typeOf? name with
  | some t => .ok t
  | none => .error (.unresolved name)

/-- Arguments fit their parameters; the first ones have the given number. -/
def fitArguments (r : Registry) (callee : String) : Nat → List Ty → List Ty → Except Rejection Unit
  | i, found :: fs, param :: ps =>
    match fits r found param with
    | .ok _ => fitArguments r callee (i + 1) fs ps
    | .error c => .error (.inArgument i callee c)
  | _, _, _ => .ok ()

/-- The result of a call: the callee is looked up and its arity compared before the arguments count. -/
def apply (r : Registry) (env : Bindings) (callee : String) (count : Nat) (args : Except Rejection (List Ty)) :
    Except Rejection Ty := do
  match ← typeOfName env callee with
  | .callable params ret =>
    if count = params.length then
      let found ← args
      fitArguments r callee 1 found params
      .ok ret
    else .error (.arity callee params.length count)
  | t => .error (.notCallable callee t)

mutual

/-- The narrowest type of an expression. -/
def infer (r : Registry) (env : Bindings) : Expr → Except Rejection Ty
  | .int _ v => .ok (.literal (.int v))
  | .float _ _ => .ok .float
  | .str _ s => .ok (.literal (.str s))
  | .bytes _ _ => .ok .bytes
  | .formatted _ _ => .ok .str
  | .bool _ b => .ok (.literal (.bool b))
  | .none _ => .ok .none
  | .list _ items => do
    let ts ← inferAll r env items
    .ok (listOf r (.join (ts.map Ty.widen)))
  | .name _ n => typeOfName env n
  | .call _ f args => apply r env f.name args.length (inferAll r env args)

/-- The types of expressions; the first one without a type decides. -/
def inferAll (r : Registry) (env : Bindings) : List Expr → Except Rejection (List Ty)
  | [] => .ok []
  | e :: es => do
    let t ← infer r env e
    let ts ← inferAll r env es
    .ok (t :: ts)

end

/-! ## Statements -/

/-- The type of a hint. -/
def typeOfHint (r : Registry) (h : Hint) : Except Rejection Ty :=
  match h.meaning r with
  | .ok t => .ok t
  | .error f => .error (.badHint h.text f)

/-- A value of an expression fits a type. -/
def fitsValue (r : Registry) (env : Bindings) (e : Expr) (declared : Ty) : Except Rejection Unit := do
  let found ← infer r env e
  fits r found declared

/-- The types of parameters. -/
def typesOfParams (r : Registry) : List Param → Except Rejection (List Ty)
  | [] => .ok []
  | p :: ps =>
    match typeOfHint r p.hint with
    | .ok t => do
      let ts ← typesOfParams r ps
      .ok (t :: ts)
    | .error c => .error (.inParameter p.name.name c)

/-- The type of a function. -/
def typeOfFunction (r : Registry) (params : List Param) (ret : Hint) : Except Rejection Ty := do
  let ts ← typesOfParams r params
  match typeOfHint r ret with
  | .ok t => .ok (.callable ts t)
  | .error c => .error (.inReturn c)

/-- What a statement declares, if it declares anything. -/
def declared? (r : Registry) : StatementKind → Option (Ident × Except Rejection Ty)
  | .declare x h _ => some (x, typeOfHint r h)
  | .define f ps t => some (f, typeOfFunction r ps t)
  | .assign _ _ | .call _ _ => none

/-- The bindings after a statement: a declaration without a fault in its hints binds its name. -/
def bindingsAfter (r : Registry) (env : Bindings) (index : Nat) (k : StatementKind) : Bindings :=
  match declared? r k with
  | some (x, .ok t) => env.bind ⟨x.name, t, index, x.span⟩
  | _ => env

/-- Is a statement accepted under some bindings? -/
def accepts (r : Registry) (env : Bindings) : StatementKind → Except Rejection Unit
  | .declare _ h init => do
    let t ← typeOfHint r h
    match init with
    | some e => fitsValue r env e t
    | none => .ok ()
  | .assign x e => do
    let t ← typeOfName env x.name
    fitsValue r env e t
  | .call f args => do
    let _ ← apply r env f.name args.length (inferAll r env args)
    .ok ()
  | .define _ ps t => do
    let _ ← typeOfFunction r ps t
    .ok ()

/-- The verdict on a statement. -/
def verdict (r : Registry) (env : Bindings) (index : Nat) (s : Statement) : Verdict :=
  match accepts r env s.kind with
  | .ok _ => .ok index s.span
  | .error c => c.verdict index s.span

/-- The verdicts on statements from a position on, and the bindings after them. -/
def run (r : Registry) : (env : Bindings) → (index : Nat) → List Statement → List Verdict × Bindings
  | env, _, [] => ([], env)
  | env, index, s :: ss =>
    let rest := run r (bindingsAfter r env index s.kind) (index + 1) ss
    (verdict r env index s :: rest.1, rest.2)

/-- Checks a module under bindings from before; the bindings after it can be used again. -/
def check (r : Registry) (env : Bindings) (statements : List Statement) : Report × Bindings :=
  let result := run r env 0 statements
  (.ofVerdicts result.1, result.2)

end Checker

end AnnotationChecker
