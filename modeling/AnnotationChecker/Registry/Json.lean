import AnnotationChecker.Registry
import AnnotationChecker.Json.Decode
import AnnotationChecker.Json.Reader
/-!
# Registries as JSON

A registry is a record of its containers, its aliases and the constructor of list displays. Fields that are
missing are those of the built-in registry. A record may also be an array of its fields in order, where the
last ones may be missing if they may be missing in the record.
-/

namespace AnnotationChecker

/-! ## Writing -/

def ContainerSpec.toJson (s : ContainerSpec) : Json :=
  .object [("variance", .string s.variance.text), ("bases", .strings s.bases)]

/-- A table as an object, by ascending name. -/
def Table.toJson {α : Type} (value : α → Json) (t : Table α) : Json :=
  .object (t.entries.map fun e => (e.1, value e.2))

def Registry.toJson (r : Registry) : Json :=
  .object [("containers", r.containers.toJson ContainerSpec.toJson), ("aliases", r.aliases.toJson .string),
    ("list_display", .string r.listDisplay)]

/-! ## Reading -/

def Variance.ofJson? : Json → Option Variance := Json.choice? [.covariant, .invariant] Variance.text

/-- A specification needs its variance; without bases it has none. -/
def ContainerSpec.ofJson? (v : Json) : Option ContainerSpec :=
  match v with
  | .array [x] => do
    let x ← Variance.ofJson? x
    some ⟨x, []⟩
  | .array [x, bs] => do
    let x ← Variance.ofJson? x
    let bs ← bs.strings?
    some ⟨x, bs⟩
  | v => do
    let ms ← v.closedRecord? ["variance", "bases"]
    let x ← Json.member? ms "variance"
    let x ← Variance.ofJson? x
    let bs ← Json.memberOr ms "bases" [] Json.strings?
    some ⟨x, bs⟩

/-- A table from an object; the last one of a name counts. -/
def Table.ofJson? {α : Type} (value : Json → Option α) (v : Json) : Option (Table α) := do
  let ms ← v.object?
  let es ← ms.mapM fun m => (value m.2).map (m.1, ·)
  some (.ofList es)

namespace Registry

/-- The registry of three fields, of which any may be missing. -/
def ofFields? (containers aliases listDisplay : Option Json) : Option Registry := do
  let cs ← match containers with
    | some v => Table.ofJson? ContainerSpec.ofJson? v
    | none => some builtin.containers
  let as ← match aliases with
    | some v => Table.ofJson? Json.string? v
    | none => some builtin.aliases
  let d ← match listDisplay with
    | some v => v.string?
    | none => some builtin.listDisplay
  some ⟨cs, as, d⟩

def ofJson? (v : Json) : Option Registry :=
  match v with
  | .array vs => if vs.length ≤ 3 then ofFields? vs[0]? vs[1]? vs[2]? else none
  | v => do
    let ms ← v.closedRecord? ["containers", "aliases", "list_display"]
    ofFields? (Json.member? ms "containers") (Json.member? ms "aliases") (Json.member? ms "list_display")

/-- The registry that a JSON text describes, whether valid or not. -/
def parse? (text : String) : Option Registry := do
  let v ← Json.parse? text
  ofJson? v

/-- Why a registry cannot be loaded: its text is none, or what it describes is not valid. -/
inductive LoadFault where
  | malformed
  | invalid (fault : Fault)
deriving DecidableEq

/-- The valid registry that a JSON text describes. -/
def load (text : String) : Except LoadFault Registry :=
  match parse? text with
  | none => .error .malformed
  | some r =>
    match r.validate with
    | .ok _ => .ok r
    | .error f => .error (.invalid f)

end Registry

end AnnotationChecker
