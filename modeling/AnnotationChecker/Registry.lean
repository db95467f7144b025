import AnnotationChecker.Table
import AnnotationChecker.Ty
/-!
# The registry of containers

A registry declares the container constructors: the variance of each and its bases, from which
conformance follows. A constructor may have other names, and one constructor types list displays.
Looking a name up follows one alias, also when the name is that of a constructor.
-/

namespace AnnotationChecker

/-- What is declared about a constructor. -/
structure ContainerSpec where
  variance : Variance
  bases : List String
deriving DecidableEq

/-- The declared constructors, their other names, and the constructor of list displays. -/
structure Registry where
  containers : Table ContainerSpec
  aliases : Table String
  listDisplay : String

namespace Registry

/-- The registry that is used when none is given. -/
def builtin : Registry where
  containers := .ofList [("list", ⟨.invariant, ["Sequence"]⟩), ("set", ⟨.invariant, ["Collection"]⟩),
    ("frozenset", ⟨.covariant, ["Collection"]⟩), ("Sequence", ⟨.covariant, ["Collection"]⟩),
    ("Collection", ⟨.covariant, ["Iterable"]⟩), ("Iterator", ⟨.covariant, ["Iterable"]⟩),
    ("Iterable", ⟨.covariant, []⟩)]
  aliases := .ofList [("List", "list"), ("Set", "set"), ("FrozenSet", "frozenset")]
  listDisplay := "list"

/-- The constructor that a name stands for, after one alias. -/
def resolve? (r : Registry) (name : String) : Option (String × ContainerSpec) :=
  let ctor := (r.aliases.get? name).getD name
  (r.containers.get? ctor).map (ctor, ·)

/-- The constructor that a name stands for, without what is declared about it. -/
def target? (r : Registry) (name : String) : Option String := (r.resolve? name).map (·.1)

/-- The constructors that are the bases of a name. -/
def basesOf (r : Registry) (name : String) : List String :=
  match r.resolve? name with
  | some (_, spec) => spec.bases.filterMap r.target?
  | none => []

/-! ## Conformance -/

/-- Is the goal among some constructors or reachable from them through bases? Only those that were not
visited yet are followed. -/
def reaches (r : Registry) (goal : String) (unvisited : List String) (pending : List String) : Bool :=
  match pending with
  | [] => false
  | c :: rest =>
    if c = goal then true
    else if c ∈ unvisited then reaches r goal (unvisited.erase c) (r.basesOf c ++ rest)
    else reaches r goal unvisited rest
termination_by (unvisited.length, pending.length)
decreasing_by
  · have := List.length_erase_of_mem ‹c ∈ unvisited›
    have := List.length_pos_of_mem ‹c ∈ unvisited›
    exact Prod.Lex.left _ _ (by omega)
  · exact Prod.Lex.right _ (by simp)

/-- A constructor conforms to itself, to its bases, and to what they conform to. Names that stand for no
constructor conform to themselves only. -/
def conforms (r : Registry) (sub sup : String) : Bool :=
  match r.target? sub, r.target? sup with
  | some c, some d => r.reaches d r.containers.keys [c]
  | _, _ => sub = sup

/-! ## Validity -/

/-- What is wrong with a registry. -/
inductive Fault where
  | unknownBase (ctor base : String)
  | unknownTarget (name target : String)
  | missingListDisplay (name : String)
  | cycle (ctor : String)
deriving DecidableEq

def Fault.message : Fault → String
  | .unknownBase ctor base => "container '" ++ ctor ++ "' names unknown base '" ++ base ++ "'"
  | .unknownTarget name target => "alias '" ++ name ++ "' refers to unknown container '" ++ target ++ "'"
  | .missingListDisplay name => "list displays use '" ++ name ++ "', which is not a registered container"
  | .cycle ctor => "container bases form a cycle through '" ++ ctor ++ "'"

/-- The first base that no constructor stands for. -/
def unknownBase? (r : Registry) : Option Fault :=
  r.containers.entries.findSome? fun (ctor, spec) =>
    (spec.bases.find? fun b => (r.resolve? b).isNone).map (.unknownBase ctor)

/-- The first other name that stands for no constructor. -/
def unknownTarget? (r : Registry) : Option Fault :=
  r.aliases.entries.findSome? fun (name, target) =>
    if (r.containers.get? target).isNone then some (.unknownTarget name target) else none

/-- List displays need a constructor. -/
def missingListDisplay? (r : Registry) : Option Fault :=
  if (r.resolve? r.listDisplay).isNone then some (.missingListDisplay r.listDisplay) else none

/-- Follows the bases of a constructor at the end of a path, and gives the constructors that are done,
that is, known to lead into no cycle. A constructor that is on the path closes a cycle. The room bounds the
length of the path. -/
def follow (r : Registry) : (room : Nat) → (path done : List String) → String → Except Fault (List String)
  | 0, _, done, _ => .ok done
  | room + 1, path, done, c =>
    if c ∈ done then .ok done
    else if c ∈ path then .error (.cycle c)
    else
      match (r.basesOf c).foldlM (fun done b => r.follow room (c :: path) done b) done with
      | .ok done => .ok (c :: done)
      | .error f => .error f

/-- Follows the bases of every constructor. A path holds each of them once at most. -/
def checkAcyclic (r : Registry) : Except Fault Unit :=
  match r.containers.keys.foldlM (fun done c => r.follow (r.containers.keys.length + 1) [] done c) [] with
  | .ok _ => .ok ()
  | .error f => .error f

/-- Every base and every other name stands for a constructor, as does the one of list displays, and no
constructor is a base of itself in any number of steps. -/
def validate (r : Registry) : Except Fault Unit :=
  match r.unknownBase? with
  | some f => .error f
  | none =>
    match r.unknownTarget? with
    | some f => .error f
    | none =>
      match r.missingListDisplay? with
      | some f => .error f
      | none => r.checkAcyclic

end Registry

end AnnotationChecker
