import AnnotationChecker.Token.Cursor
/-!
# What parsers give

`Parser.Yields` is partial correctness up to the nesting limit: whatever a parser gives has the property, and
it fails in no other way than by being nested too deep. One rule for each of the parsers that others are put
together from. Only the kinds of the tokens that are left count, `Cursor.kinds`.
-/

namespace AnnotationChecker

/-- The kinds of the tokens that are left. -/
def Cursor.kinds (c : Cursor) : List TokenKind := c.rest.map Token.kind

section

variable {c : Cursor} {k : TokenKind} {ks : List TokenKind}

theorem Cursor.peek_kind (h : c.kinds = k :: ks) : c.peek.kind = k := by
  obtain ⟨ts, prev, depth⟩ := c
  cases ts with
  | nil => simp [kinds] at h
  | cons t ts =>
    simp only [kinds, List.map_cons, List.cons.injEq] at h
    exact h.1

theorem Cursor.kinds_advance (h : c.kinds = k :: ks) : c.advance.kinds = ks := by
  obtain ⟨ts, prev, depth⟩ := c
  cases ts with
  | nil => simp [kinds] at h
  | cons t ts =>
    simp only [kinds, List.map_cons, List.cons.injEq] at h
    exact h.2

theorem Cursor.length_rest (c : Cursor) : c.rest.length = c.kinds.length := by
  simp [kinds]

end

namespace Parser

/-- What a parser gives at a cursor has the property, unless it stops at the nesting limit. -/
def Yields {α : Type} (p : Parser α) (c : Cursor) (Q : α → Cursor → Prop) : Prop :=
  match p c with
  | .ok a c' => Q a c'
  | .error i _ => i.code = .nestingTooDeep

variable {α β : Type} {p : Parser α} {c : Cursor} {P Q : α → Cursor → Prop}

theorem Yields.pure {a : α} (h : Q a c) : Yields (Pure.pure a) c Q := h

theorem Yields.bind {f : α → Parser β} {R : β → Cursor → Prop} (h : Yields p c P)
    (hf : ∀ a c', P a c' → Yields (f a) c' R) : Yields (p >>= f) c R := by
  unfold Yields at h
  show match EStateM.bind p f c with
    | .ok a c' => R a c'
    | .error i _ => i.code = .nestingTooDeep
  unfold EStateM.bind
  cases hp : p c with
  | ok a c' =>
    rw [hp] at h
    exact hf a c' h
  | error i c' =>
    rw [hp] at h
    exact h

theorem Yields.here (c : Cursor) : Yields Parser.here c fun _ c' => c' = c := rfl

theorem Yields.prev (c : Cursor) : Yields Parser.prev c fun _ c' => c' = c := rfl

theorem Yields.tooDeep : Yields (Parser.tooDeep : Parser α) c Q := rfl

theorem Yields.enter (c : Cursor) : Yields Parser.enter c fun _ c' => c'.kinds = c.kinds := by
  unfold Yields Parser.enter
  split
  · next heq =>
    split at heq
    · cases heq
    · cases heq
      rfl
  · next heq =>
    split at heq
    · cases heq
      rfl
    · cases heq

/-- Coming back to the level from before does not touch the tokens. -/
theorem Yields.levelled {A : α → Prop} {ks : List TokenKind} (h : Yields p c fun a c' => A a ∧ c'.kinds = ks) :
    Yields (Parser.levelled p) c fun a c' => A a ∧ c'.kinds = ks := by
  unfold Yields at h
  unfold Yields Parser.levelled
  cases hp : p c with
  | ok a c' =>
    rw [hp] at h
    exact h
  | error i c' =>
    rw [hp] at h
    exact h

theorem Yields.nested {A : α → Prop} {ks : List TokenKind}
    (h : ∀ c', c'.kinds = c.kinds → Yields p c' fun a c' => A a ∧ c'.kinds = ks) :
    Yields (Parser.nested p) c fun a c' => A a ∧ c'.kinds = ks :=
  .levelled (.bind (.enter c) fun _ c' hc => h c' hc)

theorem Yields.spanned {A : α → Prop} {ks : List TokenKind} (h : Yields p c fun a c' => A a ∧ c'.kinds = ks) :
    Yields (Parser.spanned p) c fun a c' => A a.1 ∧ c'.kinds = ks := by
  refine .bind (.here c) ?_
  rintro start _ rfl
  refine .bind h ?_
  rintro a c₁ ⟨ha, hc₁⟩
  refine .bind (.prev c₁) ?_
  rintro last _ rfl
  exact .pure ⟨ha, hc₁⟩

/-- Whatever the span is. -/
theorem Yields.covered {p : Parser (Span → α)} {A : α → Prop} {ks : List TokenKind}
    (h : Yields p c fun make c' => (∀ s, A (make s)) ∧ c'.kinds = ks) :
    Yields (Parser.covered p) c fun a c' => A a ∧ c'.kinds = ks := by
  refine .bind h.spanned ?_
  rintro ⟨make, s⟩ c₁ ⟨hmake, hc₁⟩
  exact .pure ⟨hmake s, hc₁⟩

section

variable {k : TokenKind} {ks : List TokenKind} (h : c.kinds = k :: ks)

include h

/-- Looking at the next token before going on. -/
theorem Yields.bind_peek {f : TokenKind → Parser β} {R : β → Cursor → Prop} (hf : Yields (f k) c R) :
    Yields (Parser.peek >>= f) c R := by
  have hpeek : Yields Parser.peek c fun k' c' => k' = k ∧ c' = c := ⟨Cursor.peek_kind h, rfl⟩
  refine .bind hpeek ?_
  rintro _ _ ⟨rfl, rfl⟩
  exact hf

theorem Yields.advance : Yields Parser.advance c fun _ c' => c'.kinds = ks :=
  Cursor.kinds_advance h

theorem Yields.expect : Yields (Parser.expect k) c fun _ c' => c'.kinds = ks := by
  unfold Yields Parser.expect
  rw [Cursor.peek_kind h, if_pos rfl]
  exact Cursor.kinds_advance h

theorem Yields.eat_self : Yields (Parser.eat k) c fun b c' => b = true ∧ c'.kinds = ks := by
  unfold Yields Parser.eat
  rw [Cursor.peek_kind h, if_pos rfl]
  exact ⟨rfl, Cursor.kinds_advance h⟩

theorem Yields.eat_of_ne {k' : TokenKind} (hk : k ≠ k') :
    Yields (Parser.eat k') c fun b c' => b = false ∧ c'.kinds = k :: ks := by
  unfold Yields Parser.eat
  rw [Cursor.peek_kind h, if_neg hk]
  exact ⟨rfl, h⟩

end

theorem Yields.identifier {n : String} {ks : List TokenKind} (h : c.kinds = .identifier n :: ks) :
    Yields Parser.identifier c fun x c' => x.1 = n ∧ c'.kinds = ks := by
  unfold Yields Parser.identifier
  rw [Cursor.peek_kind h]
  exact ⟨rfl, Cursor.kinds_advance h⟩

end Parser

end AnnotationChecker
