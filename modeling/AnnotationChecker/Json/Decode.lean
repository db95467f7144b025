import AnnotationChecker.Json
/-!
# Decoding JSON

The parts that decoders are made of. A record is an object whose fields occur once; a choice is the name of
an alternative, or an object that maps the name to null.
-/

namespace AnnotationChecker.Json

def string? : Json → Option String
  | .string s => some s
  | _ => none

def array? : Json → Option (List Json)
  | .array vs => some vs
  | _ => none

def object? : Json → Option (List (String × Json))
  | .object ms => some ms
  | _ => none

/-- A natural number below a limit. -/
def natBelow? (limit : Nat) : Json → Option Nat
  | .int n => if 0 ≤ n ∧ n < limit then some n.toNat else none
  | _ => none

/-- The first member with a key. -/
def member? (ms : List (String × Json)) (key : String) : Option Json :=
  (ms.find? fun m => m.1 == key).map (·.2)

/-- The keys of some members, in order. -/
def keys (ms : List (String × Json)) : List String := ms.map (·.1)

/-- Does each of the keys occur once at most? -/
def occurOnce (known : List String) (ms : List (String × Json)) : Bool :=
  known.all fun k => (keys ms).count k ≤ 1

/-- The members of a record that has no other fields than the known ones. -/
def closedRecord? (known : List String) (v : Json) : Option (List (String × Json)) := do
  let ms ← v.object?
  if (keys ms).all known.contains && occurOnce known ms then some ms else none

/-- An array of strings. -/
def strings? (v : Json) : Option (List String) := do
  let vs ← v.array?
  vs.mapM string?

/-- A member that may be missing. -/
def memberOr {α : Type} (ms : List (String × Json)) (key : String) (default : α) (decode : Json → Option α) :
    Option α :=
  match member? ms key with
  | some v => decode v
  | none => some default

/-- A member that may be missing or null. -/
def optionalMember {α : Type} (ms : List (String × Json)) (key : String) (decode : Json → Option α) :
    Option (Option α) :=
  match member? ms key with
  | some .null | none => some none
  | some v => (decode v).map some

/-- The name of an alternative. -/
def choiceName? : Json → Option String
  | .string s => some s
  | .object [(s, .null)] => some s
  | _ => none

/-- One of the alternatives, by their names. -/
def choice? {α : Type} (all : List α) (name : α → String) (v : Json) : Option α := do
  let s ← v.choiceName?
  all.find? fun a => name a == s

end AnnotationChecker.Json
