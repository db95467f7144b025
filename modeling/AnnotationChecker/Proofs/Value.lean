import AnnotationChecker.Proofs.Registry.Conformance
import AnnotationChecker.Proofs.Ty.Parts
import AnnotationChecker.Proofs.Ty.Union
/-!
# Types as sets of values

A value is a datum: a constant, or a container with its items. `Ty.Contains` says which values belong to a
type. A canonical union holds the values of its members, widening loses none, and a subtype has no value that
the larger type does not have (`contains_of_isSubtype`).
-/

namespace AnnotationChecker

/-- A datum. -/
inductive Value where
  | int (value : Int)
  | float (value : Binary64)
  | str (text : String)
  | bytes (text : String)
  | bool (value : Bool)
  | none
  | container (ctor : String) (items : List Value)

/-- The built-in type of a value that is no container. -/
def Value.kind? : Value → Option Primitive
  | .int _ => some .int
  | .float _ => some .float
  | .str _ => some .str
  | .bytes _ => some .bytes
  | .bool _ => some .bool
  | .none => some .none
  | .container _ _ => Option.none

/-- The value that a literal type stands for. -/
def Literal.value : Literal → Value
  | .int v => .int v
  | .str s => .str s
  | .bool b => .bool b

theorem Literal.kind?_value (v : Literal) : v.value.kind? = some v.kind := by
  cases v <;> rfl

namespace Ty

variable {r : Registry}

/-! ## Membership -/

mutual

/-- Does a value belong to a type? -/
def Contains (r : Registry) : Ty → Value → Prop
  | .primitive k, x => x.kind? = some k
  | .literal v, x => x = v.value
  | .union ts, x => ContainsAny r ts x
  | .container c e _, x => ∃ d xs, x = .container d xs ∧ r.conforms d c = true ∧ ∀ y ∈ xs, Contains r e y
  | .callable _ _, _ => False
  | .never, _ => False

/-- Does a value belong to some type of a list? -/
def ContainsAny (r : Registry) : List Ty → Value → Prop
  | [], _ => False
  | t :: ts, x => Contains r t x ∨ ContainsAny r ts x

end

theorem containsAny_iff {ts : List Ty} {x : Value} : ContainsAny r ts x ↔ ∃ t ∈ ts, Contains r t x := by
  induction ts with
  | nil => simp [ContainsAny]
  | cons t ts ih => simp [ContainsAny, ih]

theorem contains_union {ts : List Ty} {x : Value} : Contains r (.union ts) x ↔ ∃ t ∈ ts, Contains r t x := by
  rw [Contains, containsAny_iff]

theorem contains_members {t : Ty} {x : Value} : Contains r t x ↔ ∃ u ∈ t.members, Contains r u x := by
  cases t with
  | union ts => exact contains_union
  | never => simp [Contains, members]
  | _ => simp [members]

theorem contains_ofMembers {ts : List Ty} {x : Value} : Contains r (ofMembers ts) x ↔ ∃ t ∈ ts, Contains r t x := by
  match ts with
  | [] => simp [ofMembers, Contains]
  | [t] => simp [ofMembers]
  | t :: u :: ts => exact contains_union

/-- A canonical union holds the values of the types it was made from. -/
theorem contains_join {ts : List Ty} {x : Value} : Contains r (join ts) x ↔ ∃ t ∈ ts, Contains r t x := by
  rw [join, contains_ofMembers]
  constructor
  · rintro ⟨u, hu, hx⟩
    obtain ⟨t, ht, hu⟩ := List.mem_flatMap.1 (mem_distinct.1 hu)
    exact ⟨t, ht, contains_members.2 ⟨u, hu, hx⟩⟩
  · rintro ⟨t, ht, hx⟩
    obtain ⟨u, hu, hx⟩ := contains_members.1 hx
    exact ⟨u, mem_distinct.2 (List.mem_flatMap.2 ⟨t, ht, hu⟩), hx⟩

theorem contains_widen {t : Ty} {x : Value} (h : Contains r t x) : Contains r (widen t) x := by
  induction t using Ty.inductionOn with
  | literal v =>
    rw [Contains] at h
    rw [widen, Contains, h]
    exact v.kind?_value
  | union ts ih =>
    obtain ⟨t, ht, hx⟩ := contains_union.1 h
    rw [widen, widenList_eq_map, contains_join]
    exact ⟨widen t, List.mem_map.2 ⟨t, ht, rfl⟩, ih t ht hx⟩
  | _ => exact h

/-! ## Subtypes -/

/-- A subtype has no value that the larger type does not have. -/
theorem contains_of_isSubtype {a b : Ty} {x : Value} (h : isSubtype r a b = true) (hx : Contains r a x) :
    Contains r b x := by
  induction hn : size a + size b using Nat.strongRecOn generalizing a b x with
  | _ n ih =>
    cases byRule_of_isSubtype h with
    | same => exact hx
    | never => exact absurd hx (by simp [Contains])
    | literal v =>
      simp only [Contains] at hx ⊢
      rw [hx]
      exact v.kind?_value
    | union hm =>
      obtain ⟨t, ht, hx⟩ := contains_union.1 hx
      have := size_lt_of_mem ht
      simp only [size] at hn
      exact ih _ (by omega) (hm t ht) hx rfl
    | member ht hm =>
      have := size_lt_of_mem ht
      simp only [size] at hn
      exact contains_union.2 ⟨_, ht, ih _ (by omega) hm hx rfl⟩
    | container hc he _ =>
      -- the value keeps its own constructor, which conforms to the smaller type's and so to the larger one's
      simp only [Contains] at hx ⊢
      obtain ⟨d, xs, rfl, hd, hxs⟩ := hx
      simp only [size] at hn
      exact ⟨d, xs, rfl, Registry.conforms_trans hd hc, fun y hy => ih _ (by omega) he (hxs y hy) rfl⟩
    | callable => exact absurd hx (by simp [Contains])

end Ty

end AnnotationChecker
