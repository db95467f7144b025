import AnnotationChecker.Ty
/-!
# Bindings

Every declaration adds a binding. A look-up sees the latest one of a name; earlier ones stay on record.
-/

namespace AnnotationChecker

/-- A declared name, its type, the position of the statement that declares it, and the span of the name. -/
structure Binding where
  name : String
  ty : Ty
  position : Nat
  span : Span
deriving DecidableEq

/-- All bindings that were made, the latest first. -/
structure Bindings where
  latestFirst : List Binding
deriving DecidableEq

namespace Bindings

/-- No bindings. -/
def empty : Bindings := ⟨[]⟩

/-- Adds a binding. -/
def bind (env : Bindings) (b : Binding) : Bindings := ⟨b :: env.latestFirst⟩

/-- The bindings in the order in which they were made. -/
def toList (env : Bindings) : List Binding := env.latestFirst.reverse

/-- The binding of a name that is in effect. -/
def lookup (env : Bindings) (name : String) : Option Binding := env.latestFirst.find? fun b => b.name == name

/-- The type of a name that is in effect. -/
def typeOf? (env : Bindings) (name : String) : Option Ty := (env.lookup name).map Binding.ty

/-- Every binding of a name, the earliest first. -/
def history (env : Bindings) (name : String) : List Binding := env.toList.filter fun b => b.name == name

/-- How many bindings were made. -/
def size (env : Bindings) : Nat := env.latestFirst.length

@[simp] theorem toList_empty : empty.toList = [] := rfl

@[simp] theorem toList_bind (env : Bindings) (b : Binding) : (env.bind b).toList = env.toList ++ [b] := by
  simp [bind, toList]

theorem lookup_bind (env : Bindings) (b : Binding) (name : String) :
    (env.bind b).lookup name = if b.name = name then some b else env.lookup name := by
  by_cases h : b.name = name <;> simp [bind, lookup, h]

end Bindings

end AnnotationChecker
