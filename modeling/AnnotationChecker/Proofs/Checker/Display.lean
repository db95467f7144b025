import AnnotationChecker.Proofs.Checker.Data
import AnnotationChecker.Proofs.Checker.Giving
import AnnotationChecker.Proofs.Checker.Types
import AnnotationChecker.Proofs.Ty.Widen
/-!
# List displays in covariant containers

The checker types a display as a whole: it widens the types of the items, joins them, and compares the list of that
with the declared container. When that one is covariant and above the lists, nothing is lost on the way: the display
fits just when each of its items fits the type of the elements (`Checker.fitsValue_list_iff`). So it does in every
container above the lists of the builtin registry (`Checker.display_accepted_iff`).
-/

namespace AnnotationChecker

namespace Checker

open Ty (isSubtype)

variable {r : Registry} {env : Bindings}

/-- The list of a type is below a covariant container when the type is below that of its elements. -/
theorem listOf_isSubtype_iff {c : String} {t u : Ty} (hc : r.conforms r.displayCtor c = true) :
    isSubtype r (listOf r t) (.container c u .covariant) = true ↔ isSubtype r t u = true := by
  unfold Registry.displayCtor Registry.target? at hc
  unfold listOf
  cases hd : r.resolve? r.listDisplay with
  | none =>
    rw [hd] at hc
    rw [Ty.container_isSubtype_iff]
    exact ⟨fun h => h.2.1, fun h => ⟨hc, h, nofun⟩⟩
  | some entry =>
    rw [hd] at hc
    rw [Ty.container_isSubtype_iff]
    exact ⟨fun h => h.2.1, fun h => ⟨hc, h, nofun⟩⟩

/-- All expressions have types with a property when each of them has one. -/
theorem exists_inferAll_iff {P : Ty → Prop} {es : List Expr} :
    (∃ ts, inferAll r env es = .ok ts ∧ ∀ t ∈ ts, P t) ↔ ∀ e ∈ es, ∃ t, infer r env e = .ok t ∧ P t := by
  simp only [inferAll_eq_ok]
  induction es with
  | nil => simp
  | cons e es ih =>
    rw [List.forall_mem_cons, ← ih]
    constructor
    · rintro ⟨_, hts, hall⟩
      cases hts with
      | cons ht hts =>
        obtain ⟨hp, hall⟩ := List.forall_mem_cons.1 hall
        exact ⟨⟨_, ht, hp⟩, _, hts, hall⟩
    · rintro ⟨⟨t, ht, hp⟩, ts, hts, hall⟩
      exact ⟨t :: ts, .cons ht hts, List.forall_mem_cons.2 ⟨hp, hall⟩⟩

/-- A display fits a covariant container above the lists when each of its items fits the type of the elements. -/
theorem fitsValue_list_iff {c : String} {u : Ty} (hc : r.conforms r.displayCtor c = true) (hu : u.Canonical)
    (hfree : u.LiteralFree) {s : Span} {items : List Expr} :
    fitsValue r env (.list s items) (.container c u .covariant) = .ok () ↔
      ∀ e ∈ items, fitsValue r env e u = .ok () := by
  have hwiden : ∀ t : Ty, isSubtype r t.widen u = true ↔ isSubtype r t u = true := fun t => by
    rw [(Ty.widen_isLeast r t).2.2.2 u hu hfree]
  -- the union of the widened types is below `u` when every type is
  have helements : ∀ ts : List Ty, isSubtype r (listOf r (.join (ts.map Ty.widen))) (.container c u .covariant) = true ↔
      ∀ t ∈ ts, isSubtype r t u = true := by
    intro ts
    rw [listOf_isSubtype_iff hc, Ty.join_isSubtype_iff, List.forall_mem_map]
    simp only [hwiden]
  calc fitsValue r env (.list s items) (.container c u .covariant) = .ok ()
    _ ↔ ∃ ts, inferAll r env items = .ok ts ∧ ∀ t ∈ ts, isSubtype r t u = true := by
      rw [fitsValue_eq_ok]
      simp only [infer_list_eq_ok]
      constructor
      · rintro ⟨_, ⟨ts, hts, rfl⟩, h⟩
        exact ⟨ts, hts, (helements ts).1 h⟩
      · rintro ⟨ts, hts, h⟩
        exact ⟨_, ⟨ts, hts, rfl⟩, (helements ts).2 h⟩
    _ ↔ ∀ e ∈ items, ∃ t, infer r env e = .ok t ∧ isSubtype r t u = true := exists_inferAll_iff
    _ ↔ ∀ e ∈ items, fitsValue r env e u = .ok () := by simp only [fitsValue_eq_ok]

/-! ## Declarations -/

/-- The verdict on a declaration with a value is that on the value. -/
theorem status_declaration {h : Hint} {t : Ty} (ht : h.meaning r = .ok t) {x : Ident} {e : Expr} {index : Nat}
    {s : Statement} (hs : s.Does (.declare x h (some e))) :
    (verdict r env index s).status = .ok ↔ fitsValue r env e t = .ok () := by
  rw [status_verdict, accepts_of_does hs, accepts_declaration ht]

/-- The containers that the lists of the builtin registry are below of. -/
theorem builtin_above_lists {base : String} (hbase : base ∈ ["Iterable", "Collection", "Sequence"]) :
    (∃ bases, Registry.builtin.resolve? base = some (base, ⟨.covariant, bases⟩)) ∧
      Registry.builtin.conforms Registry.builtin.displayCtor base = true := by
  have hsequence : Registry.builtin.Leads "list" "Sequence" := .single (by decide +kernel)
  have hcollection : Registry.builtin.Leads "list" "Collection" := hsequence.tail (by decide +kernel)
  have hiterable : Registry.builtin.Leads "list" "Iterable" := hcollection.tail (by decide +kernel)
  have hlist : Registry.builtin.target? Registry.builtin.displayCtor = some "list" := by decide +kernel
  simp only [List.mem_cons, List.not_mem_nil, or_false] at hbase
  rcases hbase with rfl | rfl | rfl
  · exact ⟨⟨[], by decide +kernel⟩, (Registry.conforms_iff_leads hlist (by decide +kernel)).2 hiterable⟩
  · exact ⟨⟨["Iterable"], by decide +kernel⟩, (Registry.conforms_iff_leads hlist (by decide +kernel)).2 hcollection⟩
  · exact ⟨⟨["Collection"], by decide +kernel⟩, (Registry.conforms_iff_leads hlist (by decide +kernel)).2 hsequence⟩

theorem meaning_above_lists {h : Hint} {t : Ty} (ht : h.meaning .builtin = .ok t) {base : String}
    (hbase : Hint.stripModule base ∈ ["Iterable", "Collection", "Sequence"]) (s : Span) :
    Hint.meaning .builtin (.subscript s base [h]) = .ok (.container (Hint.stripModule base) t .covariant) := by
  obtain ⟨⟨bases, hresolve⟩, -⟩ := builtin_above_lists hbase
  have hform : Hint.Form.ofBase (Hint.stripModule base) = .generic := by
    simp only [List.mem_cons, List.not_mem_nil, or_false] at hbase
    rcases hbase with hbase | hbase | hbase <;> rw [hbase] <;> decide
  rw [Hint.meaning_generic hform hresolve, ht]
  rfl

/-- **A display is accepted by a covariant container element by element.** Whatever names are bound, a list display is
accepted for an `Iterable`, a `Collection` or a `Sequence` of a type that has no literal among its members just when
each of its items is accepted for that type. -/
theorem display_accepted_iff (env : Bindings) {h : Hint} {t : Ty} (ht : h.meaning .builtin = .ok t)
    (hfree : t.LiteralFree) {base : String}
    (hbase : Hint.stripModule base ∈ ["Iterable", "Collection", "Sequence"]) (x : Ident) (items : List Expr)
    {p q : Span} {index : Nat} {s : Statement}
    (hs : s.Does (.declare x (.subscript p base [h]) (some (.list q items)))) :
    (verdict .builtin env index s).status = .ok ↔
      ∀ e ∈ items, ∀ index s, s.Does (.declare x h (some e)) → (verdict .builtin env index s).status = .ok := by
  have hcanonical : t.Canonical := ((inherited_wellBuilt _).meaning ht).canonical
  have hitems : fitsValue .builtin env (.list q items) (.container (Hint.stripModule base) t .covariant) = .ok () ↔
      ∀ e ∈ items, fitsValue .builtin env e t = .ok () :=
    fitsValue_list_iff (builtin_above_lists hbase).2 hcanonical hfree
  rw [status_declaration (meaning_above_lists ht hbase p) hs, hitems]
  constructor
  · intro hall e he index s hs
    exact (status_declaration ht hs).2 (hall e he)
  · intro hall e he
    exact (status_declaration ht (Statement.does_mk _ p none)).1 (hall e he 0 _ (Statement.does_mk _ p none))

/-- Behind `def f() -> int`, `x: Sequence[Iterable[int]] = [[f(), 2], []]` is accepted: both of its items are as an
`Iterable[int]`, since `f()` and `2` are as an `int`. -/
theorem display_accepted_iff_sample :
    (verdict .builtin (Bindings.empty.bind ⟨"f", .callable [] .int, 0, .point 1 5⟩) 1
      ⟨.declare ⟨"x", .point 2 1⟩
        (.subscript (.point 2 4) "Sequence" [.subscript (.point 2 13) "Iterable" [.name (.point 2 22) "int"]])
        (some (.list (.point 2 29) [.list (.point 2 30) [.call (.point 2 31) ⟨"f", .point 2 31⟩ [], .int (.point 2 36) 2],
          .list (.point 2 40) []])),
        .point 2 1, none⟩).status = .ok := by
  have hint : (Hint.name (.point 2 22) "int").meaning .builtin = .ok .int := by decide +kernel
  have hfree : Ty.int.LiteralFree := by simp [Ty.LiteralFree, Ty.members]
  have hiterable : Hint.stripModule "Iterable" ∈ ["Iterable", "Collection", "Sequence"] := by decide +kernel
  refine (display_accepted_iff _ (meaning_above_lists hint hiterable _) (by simp [Ty.LiteralFree, Ty.members])
    (by decide +kernel : Hint.stripModule "Sequence" ∈ _) _ _ (Statement.does_mk _ _ _)).2 ?_
  intro e he index s hs
  simp only [List.mem_cons, List.not_mem_nil, or_false] at he
  rcases he with rfl | rfl
  · refine (display_accepted_iff _ hint hfree hiterable _ _ hs).2 ?_
    intro e he index s hs
    simp only [List.mem_cons, List.not_mem_nil, or_false] at he
    rcases he with rfl | rfl
    · exact (status_declaration hint hs).2 (fitsValue_eq_ok.2 ⟨.int, rfl, Ty.isSubtype_refl _ _⟩)
    · exact (status_declaration hint hs).2 (fitsValue_eq_ok.2 ⟨_, rfl, Ty.literal_isSubtype _ _⟩)
  · exact (display_accepted_iff _ hint hfree hiterable _ [] hs).2 (by simp)

end Checker

end AnnotationChecker
