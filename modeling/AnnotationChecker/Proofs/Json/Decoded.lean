import AnnotationChecker.Json.Decode
/-!
# Written records are decoded

What the decoders find in the parts that records are written with: numbers, lists, and members that are left out when
there is no value.
-/

namespace AnnotationChecker.Json

variable {α : Type} {key k : String} {v : Json} {ms ns : List (String × Json)}

theorem natBelow?_nat {limit n : Nat} (h : n < limit) : natBelow? limit (.nat n) = some n := by
  simp [natBelow?, nat, h]

theorem mapM_written {β : Type} {write : α → β} {read : β → Option α} {xs : List α}
    (h : ∀ x ∈ xs, read (write x) = some x) : (xs.map write).mapM read = some xs := by
  induction xs with
  | nil => rfl
  | cons x xs ih => simp [h x (by simp), ih fun y hy => h y (by simp [hy])]

/-! ## Members -/

@[simp] theorem member?_nil : member? [] k = none := rfl

@[simp] theorem member?_cons : member? ((key, v) :: ms) k = if key = k then some v else member? ms k := by
  by_cases h : key = k <;> simp [member?, h]

@[simp] theorem member?_append : member? (ms ++ ns) k = (member? ms k).or (member? ns k) := by
  induction ms with
  | nil => simp
  | cons m ms ih =>
    rw [List.cons_append, member?_cons, ih, member?_cons]
    split <;> simp

@[simp] theorem member?_optional {value : Option Json} :
    member? (optional key value) k = if key = k then value else none := by
  cases value <;> simp [optional]

/-- A value that may be missing is found as it was written, unless it is written as null. -/
theorem optionalMember_written {write : α → Json} {read : Json → Option α} {x : Option α}
    (hm : member? ms key = x.map write) (hn : ∀ a, write a ≠ .null) (h : ∀ a ∈ x, read (write a) = some a) :
    optionalMember ms key read = some x := by
  unfold optionalMember
  rw [hm]
  cases x with
  | none => rfl
  | some a =>
    rw [Option.map_some]
    split
    · next he => exact absurd (Option.some.inj he) (hn a)
    · next he => cases he
    · next w _ he => rw [← Option.some.inj he, h a rfl, Option.map_some]

end AnnotationChecker.Json
