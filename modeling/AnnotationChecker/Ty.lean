import AnnotationChecker.Hint
/-!
# Types

A type is a primitive, a literal, a union, a container of elements, a callable, or `Never`, the empty
union. Any list of types can stand in a union; `Ty.join` builds the canonical ones, where no member is a
union or `Never`, no member occurs twice, and there are two members at least. Equality of types is
decided by structure, so the order of members counts.
-/

namespace AnnotationChecker

/-- The built-in types without parts. -/
inductive Primitive where
  | int
  | float
  | str
  | bool
  | bytes
  | none
deriving DecidableEq

namespace Primitive

def text : Primitive → String
  | .int => "int"
  | .float => "float"
  | .str => "str"
  | .bool => "bool"
  | .bytes => "bytes"
  | .none => "None"

/-- The built-in type with a name; that of `None` has a second one. -/
def ofName? (s : String) : Option Primitive :=
  if s = "int" then some .int
  else if s = "float" then some .float
  else if s = "str" then some .str
  else if s = "bool" then some .bool
  else if s = "bytes" then some .bytes
  else if s = "None" ∨ s = "NoneType" then some .none
  else Option.none

end Primitive

/-- The value of a literal type. -/
inductive Literal where
  | int (value : Int)
  | str (value : String)
  | bool (value : Bool)
deriving DecidableEq

namespace Literal

/-- The built-in type of a value. -/
def kind : Literal → Primitive
  | .int _ => .int
  | .str _ => .str
  | .bool _ => .bool

/-- A value as it is written. -/
def text : Literal → String
  | .int v => toString v
  | .str s => Text.quote s
  | .bool b => boolText b

end Literal

/-- How the subtyping of containers follows that of their elements: in the same direction, or only when
the elements are subtypes of each other. -/
inductive Variance where
  | covariant
  | invariant
deriving DecidableEq

def Variance.text : Variance → String
  | .covariant => "covariant"
  | .invariant => "invariant"

/-- A type. -/
inductive Ty where
  | primitive (kind : Primitive)
  | literal (value : Literal)
  | union (members : List Ty)
  | container (ctor : String) (element : Ty) (variance : Variance)
  | callable (params : List Ty) (ret : Ty)
  | never

namespace Ty

/-! ## Equality -/

mutual

/-- Are two types built in the same way? -/
def beq : Ty → Ty → Bool
  | .primitive a, .primitive b => a = b
  | .literal a, .literal b => a = b
  | .union as, .union bs => beqList as bs
  | .container c e v, .container c' e' v' => c = c' && beq e e' && v = v'
  | .callable ps r, .callable ps' r' => beqList ps ps' && beq r r'
  | .never, .never => true
  | _, _ => false

/-- Are two lists of types built in the same way? -/
def beqList : List Ty → List Ty → Bool
  | [], [] => true
  | a :: as, b :: bs => beq a b && beqList as bs
  | _, _ => false

end

mutual

theorem eq_of_beq : {a b : Ty} → beq a b = true → a = b
  | .primitive _, b, h => by cases b <;> simp_all [beq]
  | .literal _, b, h => by cases b <;> simp_all [beq]
  | .union as, b, h => by
    cases b <;> simp only [beq, Bool.false_eq_true] at h
    rw [eq_of_beqList h]
  | .container _ e _, b, h => by
    cases b <;> simp only [beq, Bool.false_eq_true, Bool.and_eq_true, decide_eq_true_eq] at h
    rw [h.1.1, eq_of_beq h.1.2, h.2]
  | .callable ps r, b, h => by
    cases b <;> simp only [beq, Bool.false_eq_true, Bool.and_eq_true] at h
    rw [eq_of_beqList h.1, eq_of_beq h.2]
  | .never, b, h => by cases b <;> simp_all [beq]

theorem eq_of_beqList : {as bs : List Ty} → beqList as bs = true → as = bs
  | [], bs, h => by cases bs <;> simp_all [beqList]
  | a :: as, bs, h => by
    cases bs <;> simp only [beqList, Bool.false_eq_true, Bool.and_eq_true] at h
    rw [eq_of_beq h.1, eq_of_beqList h.2]

end

mutual

theorem beq_refl : (a : Ty) → beq a a = true
  | .primitive _ => by simp [beq]
  | .literal _ => by simp [beq]
  | .union as => by simp [beq, beqList_refl as]
  | .container _ e _ => by simp [beq, beq_refl e]
  | .callable ps r => by simp [beq, beqList_refl ps, beq_refl r]
  | .never => rfl

theorem beqList_refl : (as : List Ty) → beqList as as = true
  | [] => rfl
  | a :: as => by simp [beqList, beq_refl a, beqList_refl as]

end

instance : DecidableEq Ty := fun a b =>
  if h : beq a b = true then isTrue (eq_of_beq h) else isFalse fun e => h (e ▸ beq_refl a)

/-! ## Unions -/

abbrev int : Ty := .primitive .int
abbrev float : Ty := .primitive .float
abbrev str : Ty := .primitive .str
abbrev bool : Ty := .primitive .bool
abbrev bytes : Ty := .primitive .bytes
abbrev none : Ty := .primitive .none

/-- The members of a union; any other type but `Never` is its own only member. -/
def members : Ty → List Ty
  | .union ts => ts
  | .never => []
  | t => [t]

/-- Adds a type at the end of a list, unless the list has it. -/
def pushUnique (ts : List Ty) (t : Ty) : List Ty := if t ∈ ts then ts else ts ++ [t]

/-- Keeps the first occurrence of each type. -/
def distinct (ts : List Ty) : List Ty := ts.foldl pushUnique []

/-- The type with given members: a union only when there are two of them. -/
def ofMembers : List Ty → Ty
  | [] => .never
  | [t] => t
  | ts => .union ts

/-- The canonical union of types: their members, each once, in the order of first occurrence. -/
def join (ts : List Ty) : Ty := ofMembers (distinct (ts.flatMap members))

/-- A type or `None`. -/
def optional (t : Ty) : Ty := join [t, none]

mutual

/-- Replaces literals by their built-in types, at the top and among the members of a union. -/
def widen : Ty → Ty
  | .literal v => .primitive v.kind
  | .union ts => join (widenList ts)
  | t => t

/-- Widens each type of a list. -/
def widenList : List Ty → List Ty
  | [] => []
  | t :: ts => widen t :: widenList ts

end

mutual

/-- Rebuilds every union of a type in its canonical form. -/
def normalized : Ty → Ty
  | .union ts => join (normalizedList ts)
  | .container c e v => .container c (normalized e) v
  | .callable ps r => .callable (normalizedList ps) (normalized r)
  | t => t

/-- Rebuilds each type of a list. -/
def normalizedList : List Ty → List Ty
  | [] => []
  | t :: ts => normalized t :: normalizedList ts

end

@[simp] theorem widenList_eq_map (ts : List Ty) : widenList ts = ts.map widen := by
  induction ts with
  | nil => rfl
  | cons t ts ih => simp [widenList, ih]

@[simp] theorem normalizedList_eq_map (ts : List Ty) : normalizedList ts = ts.map normalized := by
  induction ts with
  | nil => rfl
  | cons t ts ih => simp [normalizedList, ih]

/-- The value of a literal type. -/
def literal? : Ty → Option Literal
  | .literal v => some v
  | _ => Option.none

/-- The values of the literals among the members. -/
def literals (t : Ty) : List Literal := t.members.filterMap literal?

def isUnion : Ty → Bool
  | .union _ => true
  | _ => false

def isCallable : Ty → Bool
  | .callable _ _ => true
  | _ => false

end Ty

end AnnotationChecker
