import AnnotationChecker.Proofs.Hint.Meaning
/-!
# Spellings of a union

A union is written with `|`, with `Union[...]` or with `Optional[...]`, and these nest in any way. Each of them stands
for the union of a list of hints (`unionMeaning`), and in such a list a hint that stands for a union itself can be
replaced by what it is a union of (`unionMeaning_splice`). So a union means what its leaves from left to right make of
it, whether that is a type or the first fault (`UnionOf.meaning_eq`).
-/

namespace AnnotationChecker.Hint

variable {r : Registry}

/-! ## Unions of hints -/

/-- What the union of some hints stands for. -/
def unionMeaning (r : Registry) (hs : List Hint) : Except HintFault Ty := do
  let ts ← meanings r hs
  .ok (.join ts)

theorem meaning_eq_unionMeaning (h : Hint) : meaning r h = unionMeaning r [h] := by
  unfold unionMeaning
  rw [meanings_cons]
  cases hm : meaning r h with
  | error f => rfl
  | ok t => exact congrArg Except.ok (flat_meaning hm).joined.symm

theorem meaning_or_eq_unionMeaning (s : Span) (a b : Hint) : meaning r (.or s a b) = unionMeaning r [a, b] := by
  rw [meaning_or]
  unfold unionMeaning
  rw [meanings_cons, meanings_cons]
  cases meaning r a <;> cases meaning r b <;> rfl

theorem meaning_optional_eq_unionMeaning {base : String} (hb : Form.ofBase (stripModule base) = .optional)
    (s s' : Span) (h : Hint) : meaning r (.subscript s base [h]) = unionMeaning r [h, .const s' .none] := by
  rw [meaning_optional hb]
  unfold unionMeaning
  rw [meanings_cons]
  cases meaning r h <;> rfl

theorem flat_of_meanings {hs : List Hint} {ts : List Ty} (h : meanings r hs = .ok ts) : ∀ t ∈ ts, t.Flat :=
  Inherited.meanings h fun _ _ _ hm => flat_meaning hm

/-- In place of a hint that stands for a union, what it is a union of can stand. -/
theorem unionMeaning_splice (xs zs : List Hint) {h : Hint} {ys : List Hint} (hh : meaning r h = unionMeaning r ys) :
    unionMeaning r (xs ++ h :: zs) = unionMeaning r (xs ++ ys ++ zs) := by
  unfold unionMeaning at hh ⊢
  rw [meanings_append, meanings_cons, List.append_assoc, meanings_append, meanings_append, hh]
  cases meanings r xs with
  | error f => rfl
  | ok ts =>
    cases hys : meanings r ys with
    | error f => rfl
    | ok us =>
      cases meanings r zs with
      | error f => rfl
      | ok ws =>
        have hj := Ty.join_splice ts ws (flat_of_meanings hys)
        rw [List.append_assoc] at hj
        exact congrArg Except.ok hj

/-! ## Spellings -/

/-- A base stands for a name: it is the name, or the name behind a module. -/
def IsNamed (base name : String) : Prop := base = name ∨ ∃ m ∈ modules, base = m ++ name

theorem IsNamed.form {base : String} {f : Form} {name : String} (h : IsNamed base name)
    (hall : ∀ m ∈ "" :: modules, Form.ofBase (stripModule (m ++ name)) = f) : Form.ofBase (stripModule base) = f := by
  rcases h with rfl | ⟨m, hm, rfl⟩
  · simpa using hall "" (by simp)
  · exact hall m (List.mem_cons_of_mem _ hm)

/-- A hint spells the union of some leaves, in this order. Any hint can be a leaf, and `Optional` adds `None`. -/
inductive UnionOf : Hint → List Hint → Prop
  | leaf (h : Hint) : UnionOf h [h]
  | pipe {s : Span} {a b : Hint} {as bs : List Hint} : UnionOf a as → UnionOf b bs → UnionOf (.or s a b) (as ++ bs)
  | union {s : Span} {base : String} {args : List (Hint × List Hint)} : IsNamed base "Union" → args ≠ [] →
      (∀ a ∈ args, UnionOf a.1 a.2) → UnionOf (.subscript s base (args.map Prod.fst)) (args.flatMap Prod.snd)
  | optional {s s' : Span} {base : String} {h : Hint} {hs : List Hint} : IsNamed base "Optional" → UnionOf h hs →
      UnionOf (.subscript s base [h]) (hs ++ [.const s' .none])

/-- The arguments of a union can be replaced one after the other. -/
theorem unionMeaning_args {args : List (Hint × List Hint)} (h : ∀ a ∈ args, meaning r a.1 = unionMeaning r a.2)
    (xs : List Hint) : unionMeaning r (xs ++ args.map Prod.fst) = unionMeaning r (xs ++ args.flatMap Prod.snd) := by
  induction args generalizing xs with
  | nil => rfl
  | cons a args ih =>
    rw [List.map_cons, unionMeaning_splice xs _ (h a (by simp)), ih fun b hb => h b (List.mem_cons_of_mem _ hb),
      List.flatMap_cons, List.append_assoc]

/-- A spelling of a union stands for the union of its leaves. -/
theorem UnionOf.meaning_eq {h : Hint} {hs : List Hint} (hu : UnionOf h hs) : meaning r h = unionMeaning r hs := by
  induction hu with
  | leaf h => exact meaning_eq_unionMeaning h
  | @pipe s a b as bs _ _ iha ihb =>
    calc meaning r (.or s a b)
      _ = unionMeaning r [a, b] := meaning_or_eq_unionMeaning s a b
      _ = unionMeaning r (as ++ [b]) := unionMeaning_splice [] [b] iha
      _ = unionMeaning r (as ++ bs) := by rw [unionMeaning_splice as [] ihb, List.append_nil]
  | union hname _ _ ih =>
    rw [meaning_union (hname.form (by decide))]
    exact unionMeaning_args ih []
  | @optional s s' base h hs hname _ ih =>
    rw [meaning_optional_eq_unionMeaning (hname.form (by decide)) s s']
    exact unionMeaning_splice [] _ ih

/-- **How a union is spelled does not matter.** Two hints that spell unions of the same leaves, wherever these stand,
have the same meaning for every registry: one type, with its members in one order, or one fault. -/
theorem meaning_of_same_leaves {h k : Hint} {hs ks : List Hint} (hh : UnionOf h hs) (hk : UnionOf k ks)
    (same : hs.map plain = ks.map plain) (r : Registry) : meaning r h = meaning r k := by
  have hplain : ∀ ls : List Hint, unionMeaning r (ls.map plain) = unionMeaning r ls := by
    intro ls
    unfold unionMeaning
    rw [meanings_congr fun a _ => meaning_plain a]
  calc meaning r h
    _ = unionMeaning r hs := hh.meaning_eq
    _ = unionMeaning r ks := by rw [← hplain hs, same, hplain ks]
    _ = meaning r k := hk.meaning_eq.symm

/-- `typing.Optional[(int | str)]`, in the first line. -/
def optionalSpelling : Hint :=
  .subscript (.point 1 4) "typing.Optional" [.or (.point 1 20) (.name (.point 1 21) "int") (.name (.point 1 27) "str")]

/-- `Union[int, str | None]`, in the second line. -/
def unionSpelling : Hint :=
  .subscript (.point 2 4) "Union"
    [.name (.point 2 10) "int", .or (.point 2 15) (.name (.point 2 15) "str") (.const (.point 2 21) .none)]

theorem meaning_of_same_leaves_optional :
    UnionOf optionalSpelling [.name (.point 1 21) "int", .name (.point 1 27) "str", .const nowhere .none] ∧
      UnionOf unionSpelling [.name (.point 2 10) "int", .name (.point 2 15) "str", .const (.point 2 21) .none] ∧
      meaning .builtin optionalSpelling = meaning .builtin unionSpelling ∧
      meaning .builtin optionalSpelling = .ok (.union [.int, .str, .none]) := by
  have hoptional : UnionOf optionalSpelling
      [.name (.point 1 21) "int", .name (.point 1 27) "str", .const nowhere .none] :=
    .optional (.inr ⟨"typing.", by decide, rfl⟩) (.pipe (.leaf _) (.leaf _))
  have hunion : UnionOf unionSpelling
      [.name (.point 2 10) "int", .name (.point 2 15) "str", .const (.point 2 21) .none] := by
    refine @UnionOf.union _ _ [(_, [_]), (_, [_, _])] (.inl rfl) (by simp) ?_
    exact List.forall_mem_cons.2 ⟨.leaf _, List.forall_mem_singleton.2 (.pipe (.leaf _) (.leaf _))⟩
  exact ⟨hoptional, hunion, meaning_of_same_leaves hoptional hunion rfl .builtin, rfl⟩

end AnnotationChecker.Hint
