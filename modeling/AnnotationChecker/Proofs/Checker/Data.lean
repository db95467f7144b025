import AnnotationChecker.Proofs.Checker.Success
import AnnotationChecker.Proofs.Expr.Induction
import AnnotationChecker.Proofs.Value
/-!
# No wrong acceptance of data

An expression made of literals and list displays denotes values. The type that the checker infers for it
holds all of them (`contains_of_denotes`), so they belong to the declared type when the declaration is
accepted.
-/

namespace AnnotationChecker

/-- The constructor of the values of list displays. -/
def Registry.displayCtor (r : Registry) : String := (r.target? r.listDisplay).getD r.listDisplay

namespace Expr

mutual

/-- Is the expression built from literals and list displays only? -/
def isData : Expr → Bool
  | .list _ items => areData items
  | .name _ _ => false
  | .call _ _ _ => false
  | _ => true

/-- Are all expressions built from literals and list displays only? -/
def areData : List Expr → Bool
  | [] => true
  | e :: es => isData e && areData es

end

mutual

/-- Can the expression have a value? A formatted string can be any string. -/
def Denotes (r : Registry) : Expr → Value → Prop
  | .int _ v, x => x = .int v
  | .float _ v, x => x = .float v
  | .str _ s, x => x = .str s
  | .bytes _ s, x => x = .bytes s
  | .formatted _ _, x => ∃ s, x = .str s
  | .bool _ b, x => x = .bool b
  | .none _, x => x = .none
  | .list _ items, x => ∃ xs, x = .container r.displayCtor xs ∧ DenoteAll r items xs
  | .name _ _, _ => False
  | .call _ _ _, _ => False

/-- Can expressions have these values, one by one? -/
def DenoteAll (r : Registry) : List Expr → List Value → Prop
  | [], xs => xs = []
  | e :: es, xs => ∃ y ys, xs = y :: ys ∧ Denotes r e y ∧ DenoteAll r es ys

end

theorem denoteAll_iff {r : Registry} {es : List Expr} {xs : List Value} :
    DenoteAll r es xs ↔ List.Forall₂ (Denotes r) es xs := by
  induction es generalizing xs with
  | nil => cases xs <;> simp [DenoteAll]
  | cons e es ih => cases xs <;> simp [DenoteAll, ih]

theorem areData_iff {es : List Expr} : areData es = true ↔ ∀ e ∈ es, isData e = true := by
  induction es with
  | nil => simp [areData]
  | cons e es ih => simp [areData, ih]

theorem exists_denoteAll {r : Registry} {es : List Expr} (h : ∀ e ∈ es, ∃ x, Denotes r e x) :
    ∃ xs, DenoteAll r es xs := by
  induction es with
  | nil => exact ⟨[], rfl⟩
  | cons e es ih =>
    obtain ⟨x, hx⟩ := h e (by simp)
    obtain ⟨xs, hxs⟩ := ih (fun e he => h e (by simp [he]))
    exact ⟨x :: xs, x, xs, rfl, hx, hxs⟩

theorem exists_denotes (r : Registry) {e : Expr} (h : e.isData = true) : ∃ x, Denotes r e x := by
  induction e using Expr.inductionOn with
  | list s items ih =>
    rw [isData, areData_iff] at h
    obtain ⟨xs, hxs⟩ := exists_denoteAll (fun e he => ih e he (h e he))
    exact ⟨_, xs, rfl, hxs⟩
  | name => cases h
  | call => cases h
  | formatted s text => exact ⟨.str text, text, rfl⟩
  | _ => exact ⟨_, rfl⟩

end Expr

namespace Checker

variable {r : Registry} {env : Bindings}

open Ty

theorem contains_listOf {t : Ty} {xs : List Value} (h : ∀ x ∈ xs, Contains r t x) :
    Contains r (listOf r t) (.container r.displayCtor xs) := by
  unfold listOf Registry.displayCtor Registry.target?
  cases hd : r.resolve? r.listDisplay with
  | none => exact ⟨_, xs, rfl, Registry.conforms_self r _, h⟩
  | some e => exact ⟨_, xs, rfl, Registry.conforms_self r _, h⟩

/-- Values of items belong to the union of the widened types of the items. -/
theorem contains_element {items : List Expr} {ts : List Ty} {xs : List Value}
    (ih : ∀ e ∈ items, ∀ t x, infer r env e = .ok t → e.Denotes r x → Contains r t x)
    (ht : List.Forall₂ (fun e t => infer r env e = .ok t) items ts) (hx : List.Forall₂ (Expr.Denotes r) items xs) :
    ∀ x ∈ xs, ∃ t ∈ ts, Contains r t x := by
  induction ht generalizing xs with
  | nil => cases hx; simp
  | cons hte _ ihs =>
    cases hx with
    | cons hxe hxs =>
      intro x hm
      rcases List.mem_cons.1 hm with rfl | hm
      · exact ⟨_, by simp, ih _ (by simp) _ _ hte hxe⟩
      · obtain ⟨t, ht, h⟩ := ihs (fun e he => ih e (by simp [he])) hxs x hm
        exact ⟨t, by simp [ht], h⟩

/-- The type of an expression holds every value that it denotes. -/
theorem contains_of_denotes {e : Expr} {t : Ty} {x : Value} (ht : infer r env e = .ok t) (hx : e.Denotes r x) :
    Contains r t x := by
  induction e using Expr.inductionOn generalizing t x with
  | list s items ih =>
    obtain ⟨ts, hts, rfl⟩ := infer_list_eq_ok.1 ht
    obtain ⟨xs, rfl, hxs⟩ := hx
    -- each item belongs to its own type, so to the widened one, so to the union of all
    have he := contains_element (fun e he t x => ih e he) (inferAll_eq_ok.1 hts) (Expr.denoteAll_iff.1 hxs)
    refine contains_listOf (fun x hx => contains_join.2 ?_)
    obtain ⟨t, ht, h⟩ := he x hx
    exact ⟨widen t, List.mem_map.2 ⟨t, ht, rfl⟩, contains_widen h⟩
  | name => cases hx
  | call => cases hx
  | formatted s text =>
    cases ht
    obtain ⟨w, rfl⟩ := hx
    rfl
  | _ => cases ht; cases hx; rfl

/-- A subtype has no value that the larger type does not have. And when a declaration of data is accepted, under
whatever bindings, the declared type holds every value that the data denotes. -/
theorem accepted_data_contained (r : Registry) :
    (∀ a b x, isSubtype r a b = true → Contains r a x → Contains r b x) ∧
      (∀ e : Expr, e.isData = true → ∃ x, e.Denotes r x) ∧
      ∀ env index span expectation x hint e, e.isData = true →
        (verdict r env index ⟨.declare x hint (some e), span, expectation⟩).status = .ok →
        ∃ t, hint.meaning r = .ok t ∧ ∀ v, e.Denotes r v → Contains r t v := by
  refine ⟨fun a b x => contains_of_isSubtype, fun e => Expr.exists_denotes r, ?_⟩
  intro env index span expectation x hint e _ h
  obtain ⟨t, ht, hi⟩ := accepts_declare_eq_ok.1 (status_verdict.1 h)
  obtain ⟨u, hu, hs⟩ := hi e rfl
  exact ⟨t, ht, fun v hv => contains_of_isSubtype hs (contains_of_denotes hu hv)⟩

end Checker

end AnnotationChecker
