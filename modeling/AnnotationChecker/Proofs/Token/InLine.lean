import AnnotationChecker.Token.Cursor
/-!
# Parsers that stay in their line

A parser stays in its line when it takes no token that ends one, and does the same whatever tokens follow behind
the line (`Parser.InLine`). One rule for each of the parsers that others are put together from. A loop is bounded
by how many tokens there are, so what follows changes its bound; `Parser.Alike` therefore compares two parsers.
-/

namespace AnnotationChecker

/-! ## Lines -/

/-- Tokens were taken off a list, and all of them are of certain kinds. -/
def Took (P : TokenKind → Prop) (ts rest : List Token) : Prop := ∃ taken, ts = taken ++ rest ∧ ∀ t ∈ taken, P t.kind

namespace Took

variable {P Q : TokenKind → Prop} {ts us vs : List Token}

theorem refl (ts : List Token) : Took P ts ts := ⟨[], rfl, by simp⟩

theorem cons {t : Token} (ht : P t.kind) (h : Took P us vs) : Took P (t :: us) vs := by
  obtain ⟨taken, rfl, hall⟩ := h
  exact ⟨t :: taken, rfl, List.forall_mem_cons.2 ⟨ht, hall⟩⟩

theorem trans (h : Took P ts us) (h' : Took P us vs) : Took P ts vs := by
  obtain ⟨taken, rfl, hall⟩ := h
  obtain ⟨more, rfl, hmore⟩ := h'
  exact ⟨taken ++ more, by simp, List.forall_mem_append.2 ⟨hall, hmore⟩⟩

theorem mono (hPQ : ∀ k, P k → Q k) (h : Took P ts us) : Took Q ts us := by
  obtain ⟨taken, rfl, hall⟩ := h
  exact ⟨taken, rfl, fun t ht => hPQ _ (hall t ht)⟩

theorem length_le (h : Took P ts us) : us.length ≤ ts.length := by
  obtain ⟨taken, rfl, -⟩ := h
  simp

/-- A token of another kind is still there. -/
theorem mem {t : Token} (h : Took P ts us) (ht : t ∈ ts) (hP : ¬ P t.kind) : t ∈ us := by
  obtain ⟨taken, rfl, hall⟩ := h
  exact (List.mem_append.1 ht).resolve_left fun h => hP (hall t h)

end Took

/-- A line ends somewhere among the tokens. -/
def HasLineEnd (ts : List Token) : Prop := ∃ t ∈ ts, t.kind.isLineEnd = true

/-- None of the tokens that were taken ends a line. -/
abbrev SameLine (ts rest : List Token) : Prop := Took (fun k => k.isLineEnd = false) ts rest

theorem SameLine.hasLineEnd {ts rest : List Token} (h : SameLine ts rest) (he : HasLineEnd ts) : HasLineEnd rest := by
  obtain ⟨t, ht, hk⟩ := he
  exact ⟨t, h.mem ht (by simp [hk]), hk⟩

/-- There is a token to look at. -/
theorem HasLineEnd.exists_cons {ts : List Token} (h : HasLineEnd ts) : ∃ t us, ts = t :: us := by
  obtain ⟨t, ht, -⟩ := h
  cases ts with
  | nil => cases ht
  | cons t us => exact ⟨t, us, rfl⟩

theorem HasLineEnd.of_cons {t : Token} {ts : List Token} (h : HasLineEnd (t :: ts)) (ht : t.kind.isLineEnd = false) :
    HasLineEnd ts :=
  SameLine.hasLineEnd (.cons ht (.refl ts)) h

namespace Cursor

/-- The same place with further tokens at the end. -/
def extend (c : Cursor) (ts : List Token) : Cursor := { c with rest := c.rest ++ ts }

variable {c : Cursor} {ts : List Token}

theorem peek_extend (hc : HasLineEnd c.rest) : (c.extend ts).peek = c.peek := by
  obtain ⟨t, us, h⟩ := hc.exists_cons
  simp [peek, extend, h]

theorem advance_extend (hc : HasLineEnd c.rest) : (c.extend ts).advance = c.advance.extend ts := by
  obtain ⟨t, us, h⟩ := hc.exists_cons
  simp [advance, extend, h]

theorem sameLine_advance (h : c.peek.kind.isLineEnd = false) : SameLine c.rest c.advance.rest := by
  obtain ⟨_ | ⟨t, us⟩, prev, depth⟩ := c
  · exact .refl _
  · exact .cons h (.refl us)

theorem length_advance_lt (hc : HasLineEnd c.rest) : c.advance.rest.length < c.rest.length := by
  obtain ⟨t, us, h⟩ := hc.exists_cons
  simp [advance, h]

end Cursor

namespace Parser

/-! ## Comparing two parsers -/

/-- Where a parser stopped. -/
def place {α : Type} : EStateM.Result Issue Cursor α → Cursor
  | .ok _ c | .error _ c => c

/-- What a parser gives, with further tokens at the end. -/
def extended {α : Type} (ts : List Token) : EStateM.Result Issue Cursor α → EStateM.Result Issue Cursor α
  | .ok a c => .ok a (c.extend ts)
  | .error i c => .error i (c.extend ts)

/-- With further tokens at the end, the second parser gives what the first one gives without them, and it takes no
token that ends a line. -/
structure Alike {α : Type} (ts : List Token) (p q : Parser α) (c : Cursor) : Prop where
  extend : q (c.extend ts) = extended ts (p c)
  sameLine : SameLine c.rest (place (p c)).rest

/-- What a parser does in a line depends on that line only. -/
def InLine {α : Type} (p : Parser α) : Prop := ∀ ts c, HasLineEnd c.rest → Alike ts p p c

variable {α β : Type} {ts : List Token} {p q : Parser α} {c : Cursor}

theorem Alike.bind {f g : α → Parser β} (hc : HasLineEnd c.rest) (hp : Alike ts p q c)
    (hf : ∀ a c', p c = .ok a c' → HasLineEnd c'.rest → Alike ts (f a) (g a) c') :
    Alike ts (p >>= f) (q >>= g) c := by
  obtain ⟨hext, hsame⟩ := hp
  -- both binds run what stands in front first
  have hl : (p >>= f) c = EStateM.bind p f c := rfl
  have hr : (q >>= g) (c.extend ts) = EStateM.bind q g (c.extend ts) := rfl
  unfold EStateM.bind at hl hr
  rw [hext] at hr
  cases h : p c with
  | ok a c' =>
    rw [h] at hl hr hsame
    have h' := hf a c' h (hsame.hasLineEnd hc)
    exact ⟨by rw [hl, hr]; exact h'.extend, by rw [hl]; exact hsame.trans h'.sameLine⟩
  | error i c' =>
    rw [h] at hl hr hsame
    exact ⟨by rw [hl, hr]; rfl, by rw [hl]; exact hsame⟩

theorem Alike.congr {p' q' : Parser α} (h : Alike ts p q c) (hp : p' c = p c) (hq : q' (c.extend ts) = q (c.extend ts)) :
    Alike ts p' q' c where
  extend := by rw [hp, hq, h.extend]
  sameLine := by rw [hp]; exact h.sameLine

theorem Alike.sameLine_of_ok {a : α} {c' : Cursor} (h : Alike ts p q c) (hp : p c = .ok a c') :
    SameLine c.rest c'.rest := by
  have hsame := h.sameLine
  rwa [hp] at hsame

/-- A parser in front, and one that stays in its line behind it. -/
theorem Alike.andThen {f : α → Parser β} (hc : HasLineEnd c.rest) (hp : Alike ts p p c) (hf : ∀ a, InLine (f a)) :
    Alike ts (p >>= f) (p >>= f) c :=
  .bind hc hp fun a c' _ hc' => hf a ts c' hc'

/-- Coming back to the level from before does not touch the tokens. -/
theorem Alike.levelled (h : Alike ts p q c) : Alike ts (levelled p) (levelled q) c := by
  obtain ⟨hext, hsame⟩ := h
  unfold Parser.levelled
  cases h : p c with
  | ok a c' => rw [h] at hext hsame; exact ⟨by rw [hext, h]; rfl, by rw [h]; exact hsame⟩
  | error i c' => rw [h] at hext hsame; exact ⟨by rw [hext, h]; rfl, by rw [h]; exact hsame⟩

/-- Taking a token that does not end the line. -/
theorem Alike.advance (hc : HasLineEnd c.rest) (h : c.peek.kind.isLineEnd = false) :
    Alike ts Parser.advance Parser.advance c where
  extend := by
    show EStateM.Result.ok () (c.extend ts).advance = _
    rw [Cursor.advance_extend hc]
    rfl
  sameLine := Cursor.sameLine_advance h

/-! ## Parsers that take at most one token -/

theorem identifier_eq_unexpected (h : ¬ ∃ n, c.peek.kind = .identifier n) :
    Parser.identifier c = Parser.unexpected "identifier" c := by
  unfold Parser.identifier
  split
  · next n hn => exact absurd ⟨n, hn⟩ h
  · rfl

theorem eat_eq_ok_true {k : TokenKind} {c' : Cursor} (h : Parser.eat k c = .ok true c') : c' = c.advance := by
  unfold Parser.eat at h
  split at h
  · cases h
    rfl
  · cases h

namespace InLine

theorem pure (a : α) : InLine (Pure.pure a : Parser α) := fun _ _ _ => ⟨rfl, .refl _⟩

theorem bind {f : α → Parser β} (hp : InLine p) (hf : ∀ a, InLine (f a)) : InLine (p >>= f) :=
  fun ts c hc => .andThen hc (hp ts c hc) hf

theorem ite {P : Prop} [Decidable P] (hp : InLine p) (hq : InLine q) : InLine (if P then p else q) := by
  split
  · exact hp
  · exact hq

theorem peek : InLine Parser.peek := by
  intro ts c hc
  exact ⟨by unfold Parser.peek; rw [Cursor.peek_extend hc]; rfl, .refl _⟩

theorem here : InLine Parser.here := by
  intro ts c hc
  exact ⟨by unfold Parser.here; rw [Cursor.peek_extend hc]; rfl, .refl _⟩

theorem prev : InLine Parser.prev := fun _ _ _ => ⟨rfl, .refl _⟩

theorem sees (k : TokenKind) : InLine (Parser.sees k) := by
  intro ts c hc
  exact ⟨by unfold Parser.sees; rw [Cursor.peek_extend hc]; rfl, .refl _⟩

theorem rejectAt (s : Span) (code : ErrorCode) (message : String) : InLine (Parser.rejectAt s code message : Parser α) :=
  fun _ _ _ => ⟨rfl, .refl _⟩

theorem reject (code : ErrorCode) (message : String) : InLine (Parser.reject code message : Parser α) := by
  intro ts c hc
  exact ⟨by unfold Parser.reject; rw [Cursor.peek_extend hc]; rfl, .refl _⟩

theorem unexpected (wanted : String) : InLine (Parser.unexpected wanted : Parser α) := by
  intro ts c hc
  exact ⟨by unfold Parser.unexpected; rw [Cursor.peek_extend hc]; rfl, .refl _⟩

theorem tooDeep : InLine (Parser.tooDeep : Parser α) := .reject _ _

theorem enter : InLine Parser.enter := by
  intro ts c hc
  have hdeep : Alike ts Parser.tooDeep (Parser.tooDeep : Parser Unit) c := tooDeep ts c hc
  unfold Parser.enter
  by_cases h : maxNesting ≤ c.depth
  · constructor
    · simpa [Cursor.extend, h] using hdeep.extend
    · simpa [place, h] using hdeep.sameLine
  · constructor
    · simp [Cursor.extend, h, extended]
    · simp [place, h, Took.refl]

section

variable {k : TokenKind} (hk : k.isLineEnd = false)

include hk

theorem eat : InLine (Parser.eat k) := by
  intro ts c hc
  unfold Parser.eat
  by_cases h : c.peek.kind = k
  · constructor
    · simp only [Cursor.peek_extend hc, h, if_true, Cursor.advance_extend hc]
      rfl
    · simpa [place, h] using Cursor.sameLine_advance (h ▸ hk)
  · constructor
    · simp only [Cursor.peek_extend hc, h, if_false]
      rfl
    · simp [place, h, Took.refl]

theorem expect : InLine (Parser.expect k) := by
  intro ts c hc
  have hfail : Alike ts (Parser.unexpected ("'" ++ k.text ++ "'")) (Parser.unexpected _ : Parser Unit) c :=
    unexpected _ ts c hc
  unfold Parser.expect
  by_cases h : c.peek.kind = k
  · constructor
    · simp only [Cursor.peek_extend hc, h, if_true, Cursor.advance_extend hc]
      rfl
    · simpa [place, h] using Cursor.sameLine_advance (h ▸ hk)
  · constructor
    · simpa only [Cursor.peek_extend hc, h, if_false] using hfail.extend
    · simpa [place, h] using hfail.sameLine

end

theorem identifier : InLine Parser.identifier := by
  intro ts c hc
  have hfail : Alike ts (Parser.unexpected "identifier") (Parser.unexpected _ : Parser (String × Span)) c :=
    unexpected _ ts c hc
  by_cases h : ∃ n, c.peek.kind = .identifier n
  · obtain ⟨n, h⟩ := h
    unfold Parser.identifier
    constructor
    · simp only [Cursor.peek_extend hc, h, Cursor.advance_extend hc]
      rfl
    · simpa [place, h] using Cursor.sameLine_advance (h ▸ rfl)
  · have h' : ¬ ∃ n, (c.extend ts).peek.kind = .identifier n := by rwa [Cursor.peek_extend hc]
    exact hfail.congr (identifier_eq_unexpected h) (identifier_eq_unexpected h')

/-! ## Loops -/

/-- A loop that is bounded by how many tokens there are. -/
theorem of_bound {loop : Nat → Parser α}
    (h : ∀ ts n m c, HasLineEnd c.rest → c.rest.length ≤ n → c.rest.length ≤ m → Alike ts (loop n) (loop m) c) :
    InLine fun c => loop c.rest.length c := by
  intro ts c hc
  have hle : c.rest.length ≤ (c.extend ts).rest.length := by simp [Cursor.extend]
  exact ⟨(h ts _ _ c hc (Nat.le_refl _) hle).extend, (h ts _ _ c hc (Nat.le_refl _) hle).sameLine⟩

end InLine

/-- Every item but the last is followed by a comma, so the loop ends before its bound does. -/
theorem commaLoop_alike {close : TokenKind} {item : Parser α} (hitem : InLine item) (ts : List Token) (n m : Nat)
    (c : Cursor) (hc : HasLineEnd c.rest) (hn : c.rest.length ≤ n) (hm : c.rest.length ≤ m) :
    Alike ts (commaLoop close item n) (commaLoop close item m) c := by
  induction n generalizing m c with
  | zero =>
    have hpos := Cursor.length_advance_lt hc
    omega
  | succ n ih =>
    have hpos := Cursor.length_advance_lt hc
    obtain ⟨m, rfl⟩ : ∃ k, m = k + 1 := ⟨m - 1, by omega⟩
    rw [commaLoop, commaLoop]
    refine .bind hc (InLine.peek ts c hc) ?_
    rintro k c' ⟨⟩ -
    split
    · exact InLine.pure _ ts c hc
    · refine .bind hc (hitem ts c hc) fun x c₁ hx hc₁ => ?_
      have heat : Alike ts (Parser.eat (.mark .comma)) (Parser.eat (.mark .comma)) c₁ := InLine.eat rfl ts c₁ hc₁
      refine .bind hc₁ heat fun b c₂ hb hc₂ => ?_
      cases b with
      | true =>
        have hlen : c₂.rest.length < c.rest.length := by
          have h₁ := ((hitem ts c hc).sameLine_of_ok hx).length_le
          have h₂ := Cursor.length_advance_lt hc₁
          rw [eat_eq_ok_true hb]
          omega
        exact .bind hc₂ (ih m c₂ hc₂ (by omega) (by omega)) fun xs c₃ _ hc₃ => InLine.pure _ ts c₃ hc₃
      | false => exact InLine.pure _ ts c₂ hc₂

theorem InLine.commaList {close : TokenKind} {item : Parser α} (hitem : InLine item) :
    InLine (Parser.commaList close item) :=
  .of_bound (commaLoop_alike hitem)

/-! ## Dotted names -/

theorem dottedTail_extend (ts : List Token) (name : String) (s : Span) (depth : Nat) (prev : Span) (rest : List Token)
    (hr : HasLineEnd rest) :
    dottedTail name s depth prev (rest ++ ts) = extended ts (dottedTail name s depth prev rest) ∧
      SameLine rest (place (dottedTail name s depth prev rest)).rest := by
  fun_induction dottedTail name s depth prev rest with
  | case1 name s prev dot part s' rest ih =>
    obtain ⟨hext, hsame⟩ := ih ((hr.of_cons rfl).of_cons rfl)
    exact ⟨by rw [List.cons_append, List.cons_append, dottedTail, hext], .cons rfl (.cons rfl hsame)⟩
  | case2 name s prev dot rest hrest =>
    obtain ⟨t, us, rfl⟩ := (hr.of_cons rfl).exists_cons
    refine ⟨?_, .cons rfl (.refl _)⟩
    rw [List.cons_append, List.cons_append, dottedTail]
    · rfl
    · intro part s' us' h
      cases h
      exact hrest part s' us rfl
  | case3 name s prev rest hrest =>
    obtain ⟨t, us, rfl⟩ := hr.exists_cons
    refine ⟨?_, .refl _⟩
    rw [List.cons_append, dottedTail]
    · rfl
    · intro dot us' h
      cases h
      exact hrest dot us rfl

theorem InLine.dottedName : InLine Parser.dottedName := by
  refine .bind .identifier ?_
  rintro ⟨name, s⟩ ts c hc
  obtain ⟨hext, hsame⟩ := dottedTail_extend ts name s c.depth c.prev c.rest hc
  exact ⟨hext, hsame⟩

end Parser

end AnnotationChecker
