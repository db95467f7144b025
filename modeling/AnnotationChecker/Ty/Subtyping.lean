import AnnotationChecker.Registry
/-!
# Subtyping

The first rule that fits decides:

1. a type is a subtype of itself;
2. `Never` is a subtype of every type;
3. a literal is a subtype of its built-in type;
4. a union is a subtype of what all its members are subtypes of;
5. a type is a subtype of a union when it is one of a member;
6. a container is a subtype of one that its constructor conforms to, if the elements agree with the
   variance of the larger one;
7. a callable is a subtype of one with as many parameters, if those of the larger one are subtypes of its
   own and its result is one of the larger one's.
-/

namespace AnnotationChecker.Ty

mutual

/-- How many constructors a type is built from. -/
def size : Ty → Nat
  | .union ts => sizeList ts + 1
  | .container _ e _ => size e + 1
  | .callable ps r => sizeList ps + size r + 1
  | _ => 1

/-- How many constructors the types of a list are built from, and one for each of them. -/
def sizeList : List Ty → Nat
  | [] => 0
  | t :: ts => size t + sizeList ts + 1

end

mutual

/-- Is the first type a subtype of the second? -/
def isSubtype (r : Registry) (a b : Ty) : Bool :=
  if a = b ∨ a = .never then true
  else match a, b with
    | .union ts, b => allSubtypes r ts b
    | a, .union ts => anySupertype r a ts
    | .literal v, .primitive k => v.kind = k
    | .container c e _, .container d f v =>
      r.conforms c d && isSubtype r e f && match v with
        | .covariant => true
        | .invariant => isSubtype r f e
    | .callable ps t, .callable qs u => pairwiseSubtypes r qs ps && isSubtype r t u
    | _, _ => false
termination_by 2 * (size a + size b) + 1
decreasing_by all_goals simp only [size]; omega

/-- Is every type of the list a subtype of `b`? -/
def allSubtypes (r : Registry) (as : List Ty) (b : Ty) : Bool :=
  match as with
  | [] => true
  | a :: as => isSubtype r a b && allSubtypes r as b
termination_by 2 * (sizeList as + size b)
decreasing_by all_goals simp only [sizeList]; omega

/-- Is `a` a subtype of some type of the list? -/
def anySupertype (r : Registry) (a : Ty) (bs : List Ty) : Bool :=
  match bs with
  | [] => false
  | b :: bs => isSubtype r a b || anySupertype r a bs
termination_by 2 * (size a + sizeList bs)
decreasing_by all_goals simp only [sizeList]; omega

/-- Are the lists of one length, with each type of the first a subtype of its partner? -/
def pairwiseSubtypes (r : Registry) (as bs : List Ty) : Bool :=
  match as, bs with
  | [], [] => true
  | a :: as, b :: bs => isSubtype r a b && pairwiseSubtypes r as bs
  | _, _ => false
termination_by 2 * (sizeList as + sizeList bs)
decreasing_by all_goals simp only [sizeList]; omega

end

/-- Are two types subtypes of each other? -/
def isEquivalent (r : Registry) (a b : Ty) : Bool := isSubtype r a b && isSubtype r b a

end AnnotationChecker.Ty
