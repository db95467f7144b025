import AnnotationChecker.Proofs.Hint.Height
import AnnotationChecker.Proofs.Token.Layout
/-!
# How the spans of a tree are nested

In an expression and in a hint that tokens in order derive, the span of every node holds the spans of its parts
(`Expr.Derives.nested`, `Hint.Derives.nested`). Parentheses widen the span of a node and leave those of its parts as
they are. The span of a chain runs from its first part to its last one.
-/

namespace AnnotationChecker

/-- A value stands within the tokens, and has a property. -/
structure StandsIn {α : Type} (span : α → Span) (P : α → Prop) (ts : List Token) (a : α) : Prop where
  isIn : (span a).IsIn ts
  inside : P a

/-- Items with commas between them are laid out over the tokens when each of them stands within its own ones. -/
theorem Separated.laidOut {α : Type} {L : Language α} {span : α → Span} {P : α → Prop} {ts : List Token} {n : Nat}
    {as : List α} (h : Separated L ts n as) (hts : InOrder ts)
    (hitem : ∀ us m a, us <:+: ts → m ≤ n → L us m a → StandsIn span P us a) :
    LaidOut ts (as.map span) ∧ ∀ a ∈ as, P a := by
  constructor
  · rw [List.map_eq_flatMap]
    exact .of_separated h hts fun us m a hus hm hd => .single (hitem us m a hus hm hd).isIn
  · intro a ha
    obtain ⟨us, m, hus, hm, hd⟩ := h.exists_of_mem ha
    exact (hitem us m a hus hm hd).inside

/-! ## Expressions -/

namespace Expr

/-- The spans of the parts of an expression. -/
def parts : Expr → List Span
  | .list _ items => items.map span
  | .call _ f args => f.span :: args.map span
  | _ => []

/-- The expressions right inside of an expression. -/
def children : Expr → List Expr
  | .list _ items => items
  | .call _ _ args => args
  | _ => []

/-- In an expression and in all that is inside of it, spans hold those of their parts. -/
inductive Nested : Expr → Prop
  | node {e : Expr} : e.span.Holds e.parts → (∀ x ∈ e.children, Nested x) → Nested e

@[simp] theorem span_withSpan (s : Span) (e : Expr) : (e.withSpan s).span = s := by cases e <;> rfl

theorem Nested.withSpan {e : Expr} (h : e.Nested) {s : Span} (hs : s.Covers e.span) : (e.withSpan s).Nested := by
  obtain ⟨hholds, hinside⟩ := h
  have hparts : (e.withSpan s).parts = e.parts := by cases e <;> rfl
  have hchildren : (e.withSpan s).children = e.children := by cases e <;> rfl
  refine .node ?_ (by rwa [hchildren])
  rw [span_withSpan, hparts]
  exact hholds.of_covers hs

theorem Form.span_eq {ts : List Token} {n : Nat} {make : Span → Expr} (h : Form ts n make) (s : Span) :
    (make s).span = s := by
  cases h with
  | single h => cases h <;> rfl
  | negative h => cases h <;> rfl
  | str | name | list | call => rfl
  | paren => exact span_withSpan s _

theorem Form.nested {ts : List Token} {n : Nat} {make : Span → Expr} (h : Form ts n make) (hts : InOrder ts)
    (hinside : ∀ us m e, us <:+: ts → m ≤ n → Derives us m e → StandsIn span Nested us e) :
    (make (covering ts)).Nested := by
  obtain ⟨t, us, hne, -⟩ := h.begins
  have hne : ts ≠ [] := by rw [hne]; exact List.cons_ne_nil _ _
  have hspan : (make (covering ts)).span = covering ts := h.span_eq _
  have hleaf (hparts : (make (covering ts)).parts = []) (hchildren : (make (covering ts)).children = []) :
      (make (covering ts)).Nested := by
    refine .node ?_ (by simp [hchildren])
    rw [hspan, hparts]
    exact (LaidOut.nil ts).holds hts hne
  have hitems {us : List Token} {es : List Expr} (hus : us <:+: ts) (hes : Separated Derives us n es) :
      LaidOut us (es.map span) ∧ ∀ e ∈ es, e.Nested :=
    hes.laidOut (hts.of_infix hus) fun vs m e hvs => hinside vs m e (hvs.trans hus)
  cases h with
  | single h => cases h <;> exact hleaf rfl rfl
  | negative h => cases h <;> exact hleaf rfl rfl
  | str | name => exact hleaf rfl rfl
  | @list s s' us _ es hes =>
    have hus : us <:+: ⟨.mark .leftBracket, s⟩ :: (us ++ [⟨.mark .rightBracket, s'⟩]) := infix_enclosed _ _ _
    obtain ⟨hlaid, hnested⟩ := hitems hus hes
    exact .node ((hlaid.mono hus.subset).holds hts hne) hnested
  | @call x s s' s'' us _ args hes =>
    have hus : us <:+: ⟨.identifier x, s⟩ :: ⟨.mark .leftParen, s'⟩ :: (us ++ [⟨.mark .rightParen, s''⟩]) :=
      ⟨[⟨.identifier x, s⟩, ⟨.mark .leftParen, s'⟩], [⟨.mark .rightParen, s''⟩], by simp⟩
    obtain ⟨hlaid, hnested⟩ := hitems hus hes
    have hcallee : Span.IsIn [⟨.identifier x, s⟩] s := .head hts
    have hcall := LaidOut.cons hts hcallee (hlaid.mono (List.subset_append_left us [⟨.mark .rightParen, s''⟩]))
    exact .node (hcall.holds hts hne) hnested
  | @paren s s' us _ e hd =>
    have hus : us <:+: ⟨.mark .leftParen, s⟩ :: (us ++ [⟨.mark .rightParen, s'⟩]) := infix_enclosed _ _ _
    obtain ⟨hisIn, hnested⟩ := hinside us n e hus (Nat.le_refl n) hd
    exact hnested.withSpan (covers_covering hts (hisIn.mono hus.subset))

/-- **The spans of an expression are nested.** -/
theorem Derives.nested {n : Nat} {ts : List Token} {e : Expr} (h : Derives ts n e) (hts : InOrder ts) :
    StandsIn span Nested ts e := by
  induction n using Nat.strongRecOn generalizing ts e with
  | _ n ih =>
    obtain @⟨_, n, make, hf⟩ := h
    obtain ⟨t, us, hne, -⟩ := hf.begins
    refine ⟨?_, hf.nested hts fun us m e hus hm hd => ih m (Nat.lt_succ_of_le hm) hd (hts.of_infix hus)⟩
    rw [hf.span_eq]
    exact isIn_covering hts (by rw [hne]; exact List.cons_ne_nil _ _)

end Expr

/-! ## Hints -/

namespace Hint

/-- The spans of the parts of a hint. -/
def parts : Hint → List Span
  | .subscript _ _ args => args.map span
  | .list _ items => items.map span
  | .or _ l r => [l.span, r.span]
  | .name _ _ | .const _ _ => []

/-- The hints right inside of a hint. -/
def children : Hint → List Hint
  | .subscript _ _ args => args
  | .list _ items => items
  | .or _ l r => [l, r]
  | .name _ _ | .const _ _ => []

/-- In a hint and in all that is inside of it, spans hold those of their parts. -/
inductive Nested : Hint → Prop
  | node {h : Hint} : h.span.Holds h.parts → (∀ x ∈ h.children, Nested x) → Nested h

@[simp] theorem span_withSpan (s : Span) (h : Hint) : (h.withSpan s).span = s := by cases h <;> rfl

theorem Nested.withSpan {h : Hint} (hn : h.Nested) {s : Span} (hs : s.Covers h.span) : (h.withSpan s).Nested := by
  obtain ⟨hholds, hinside⟩ := hn
  have hparts : (h.withSpan s).parts = h.parts := by cases h <;> rfl
  have hchildren : (h.withSpan s).children = h.children := by cases h <;> rfl
  refine .node ?_ (by rwa [hchildren])
  rw [span_withSpan, hparts]
  exact hholds.of_covers hs

variable {ts : List Token} {k n : Nat} {h : Hint} {make : Span → Hint}

theorem AtomForm.span_eq (hf : AtomForm ts n make) (s : Span) : (make s).span = s := by
  cases hf with
  | name | subscript | list | const => rfl
  | paren => exact span_withSpan s _

theorem AtomForm.nested (hf : AtomForm ts n make) (hts : InOrder ts)
    (hinside : ∀ us m h, us <:+: ts → m ≤ n → Derives us m h → StandsIn span Nested us h) :
    (make (covering ts)).Nested := by
  obtain ⟨t, us, hne, -⟩ := hf.begins
  have hne : ts ≠ [] := by rw [hne]; exact List.cons_ne_nil _ _
  have hspan : (make (covering ts)).span = covering ts := hf.span_eq _
  have hleaf (hparts : (make (covering ts)).parts = []) (hchildren : (make (covering ts)).children = []) :
      (make (covering ts)).Nested := by
    refine .node ?_ (by simp [hchildren])
    rw [hspan, hparts]
    exact (LaidOut.nil ts).holds hts hne
  have hitems {us : List Token} {hs : List Hint} (hus : us <:+: ts) (hd : Separated Derives us n hs) :
      (covering ts).Holds (hs.map span) ∧ ∀ h ∈ hs, h.Nested := by
    obtain ⟨hlaid, hnested⟩ := hd.laidOut (hts.of_infix hus) fun vs m h hvs => hinside vs m h (hvs.trans hus)
    exact ⟨(hlaid.mono hus.subset).holds hts hne, hnested⟩
  cases hf with
  | name | const => exact hleaf rfl rfl
  | subscript _ hd =>
    obtain ⟨hholds, hnested⟩ := hitems (infix_arguments _ _ _ _ _) hd
    exact .node hholds hnested
  | list hd =>
    obtain ⟨hholds, hnested⟩ := hitems (infix_enclosed _ _ _) hd
    exact .node hholds hnested
  | @paren s s' us _ h hd =>
    have hus : us <:+: ⟨.mark .leftParen, s⟩ :: (us ++ [⟨.mark .rightParen, s'⟩]) := infix_enclosed _ _ _
    obtain ⟨hisIn, hnested⟩ := hinside us n h hus (Nat.le_refl n) hd
    exact hnested.withSpan (covers_covering hts (hisIn.mono hus.subset))

/-- A `|` keeps what stands on its two sides apart. -/
theorem Chained.nested {A : Language Hint} (hc : Chained A ts k n h) (hts : InOrder ts)
    (hparts : ∀ us m h, us <:+: ts → m ≤ n → A us m h → StandsIn span Nested us h) : StandsIn span Nested ts h := by
  induction hc with
  | first ha => exact hparts _ _ _ List.infix_rfl (Nat.le_refl _) ha
  | @pipe ts us s k n m l r _ ha ih =>
    have hfront : ts <:+: ts ++ ⟨.mark .pipe, s⟩ :: us := (List.prefix_append _ _).isInfix
    have hback : us <:+: ts ++ ⟨.mark .pipe, s⟩ :: us := ⟨ts ++ [⟨.mark .pipe, s⟩], [], by simp⟩
    have hleft : StandsIn span Nested ts l := ih (hts.of_infix hfront) fun vs m h hvs hm =>
      hparts vs m h (hvs.trans hfront) (Nat.le_trans hm (Nat.le_max_left _ _))
    have hright : StandsIn span Nested us r := hparts us m r hback (by omega) ha
    have hmerge := (hleft.isIn.mono hfront.subset).merge (hright.isIn.mono hback.subset)
    refine ⟨hmerge, .node ⟨?_, ?_, ?_⟩ ?_⟩
    · simpa [Hint.parts] using ⟨hmerge.proper, hleft.isIn.proper, hright.isIn.proper⟩
    · simpa [Hint.parts] using ⟨Span.covers_merge_left _ _, Span.covers_merge_right _ _⟩
    · simpa [Hint.parts] using hleft.isIn.before hts hright.isIn
    · simpa [children] using ⟨hleft.inside, hright.inside⟩

/-- **The spans of a hint are nested.** -/
theorem Derives.nested (h' : Derives ts n h) (hts : InOrder ts) : StandsIn span Nested ts h := by
  induction n using Nat.strongRecOn generalizing ts h with
  | _ n ih =>
    obtain ⟨hc⟩ := h'
    refine hc.nested hts fun us m r hus hm ha => ?_
    obtain @⟨_, m, make, hf⟩ := ha
    obtain ⟨t, vs, hne, -⟩ := hf.begins
    have hus' := hts.of_infix hus
    refine ⟨?_, hf.nested hus' fun vs l h hvs hl hd => ih l (by omega) hd (hus'.of_infix hvs)⟩
    rw [hf.span_eq]
    exact isIn_covering hus' (by rw [hne]; exact List.cons_ne_nil _ _)

end Hint

end AnnotationChecker
