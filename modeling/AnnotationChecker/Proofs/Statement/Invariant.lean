import AnnotationChecker.Proofs.Token.Derivation
import AnnotationChecker.Proofs.Statement.InLine
/-!
# What holds of the cursor all along

An invariant of the cursor is kept by taking a token that does not end the line, by entering a level and by coming back
from it (`Parser.Invariant`). It holds wherever a parser stops that starts where it holds, whether the parser succeeds or
fails, and an issue is one at a token that the invariant allows (`Parser.Composed.endsIn`).
-/

namespace AnnotationChecker

open AnnotationChecker.Parser

namespace Parser

variable {ι α β : Type} {I : Cursor → Prop} {K : Bool → Cursor → Prop} {J : Issue → Prop} {p q : Parser α}
  {c c' : Cursor} {d : Bool}

/-! ## Outcomes -/

/-- Whatever the outcome, `I` holds of the cursor where the parser stops, and `J` of an issue. -/
def EndsIn (I : Cursor → Prop) (J : Issue → Prop) (p : Parser α) (c : Cursor) : Prop :=
  match p c with
  | .ok _ c' => I c'
  | .error i c' => J i ∧ I c'

/-- Started where `I` holds, the parser stops where it holds. -/
def Maintains (I : Cursor → Prop) (J : Issue → Prop) (p : Parser α) : Prop := ∀ c, I c → EndsIn I J p c

namespace EndsIn

theorem place (h : EndsIn I J p c) : I (Parser.place (p c)) := by
  unfold EndsIn at h
  cases hread : p c with
  | ok a c' => rwa [hread] at h
  | error i c' =>
    rw [hread] at h
    exact h.2

theorem of_ok {a : α} (h : EndsIn I J p c) (hread : p c = .ok a c') : I c' := by
  unfold EndsIn at h
  rwa [hread] at h

theorem of_error {i : Issue} (h : EndsIn I J p c) (hread : p c = .error i c') : J i ∧ I c' := by
  unfold EndsIn at h
  rwa [hread] at h

theorem ok {a : α} (hread : p c = .ok a c') (h : I c') : EndsIn I J p c := by
  unfold EndsIn
  rwa [hread]

theorem error {i : Issue} (hread : p c = .error i c') (hi : J i) (h : I c') : EndsIn I J p c := by
  unfold EndsIn
  rw [hread]
  exact ⟨hi, h⟩

theorem congr (h : EndsIn I J q c) (hp : p c = q c) : EndsIn I J p c := by
  unfold EndsIn
  rwa [hp]

theorem bind {f : α → Parser β} (hp : EndsIn I J p c) (hf : ∀ a c', p c = .ok a c' → I c' → EndsIn I J (f a) c') :
    EndsIn I J (p >>= f) c := by
  unfold EndsIn
  cases hread : p c with
  | ok a c' =>
    rw [bind_of_ok hread]
    exact hf a c' hread (hp.of_ok hread)
  | error i c' =>
    rw [bind_of_error hread]
    exact hp.of_error hread

theorem spanned (h : EndsIn I J p c) (hc : I c) : EndsIn I J (Parser.spanned p) c := by
  refine .bind (.ok rfl hc) ?_
  rintro start c' ⟨⟩ -
  exact h.bind fun _ _ _ hc' => .ok rfl hc'

end EndsIn

namespace Maintains

theorem pure (a : α) : Maintains I J (Pure.pure a : Parser α) := fun _ hc => .ok rfl hc

theorem bind {f : α → Parser β} (hp : Maintains I J p) (hf : ∀ a, Maintains I J (f a)) : Maintains I J (p >>= f) :=
  fun c hc => (hp c hc).bind fun a c' _ hc' => hf a c' hc'

theorem ite {P : Prop} [Decidable P] (hp : Maintains I J p) (hq : Maintains I J q) :
    Maintains I J (if P then p else q) := by
  split
  · exact hp
  · exact hq

theorem sees (k : TokenKind) : Maintains I J (Parser.sees k) := fun _ hc => .ok rfl hc

end Maintains

/-! ## Invariants -/

/-- An invariant of the cursor: `K true` is what is left of it while levels may be open that were entered. At a cursor
that satisfies it, the token may be blamed. -/
structure Invariant (K : Bool → Cursor → Prop) (J : Issue → Prop) : Prop where
  advance : ∀ {d c}, K d c → c.peek.kind.isLineEnd = false → K d c.advance
  blame : ∀ {d c} code message, K d c → J ⟨code, message, c.peek.span⟩
  enter : ∀ {d c}, K d c → K true { c with depth := c.depth + 1 }
  relax : ∀ {d c}, K d c → K true c
  comeBack : ∀ {d c c'}, K d c → K true c' → K d { c' with depth := c.depth }

namespace Invariant

variable (hK : Invariant K J)

include hK

theorem reject (code : ErrorCode) (message : String) : Maintains (K d) J (Parser.reject code message : Parser α) :=
  fun _ hc => .error rfl (hK.blame code message hc) hc

theorem unexpected (wanted : String) : Maintains (K d) J (Parser.unexpected wanted : Parser α) :=
  fun _ hc => .error rfl (hK.blame _ _ hc) hc

theorem eat {k : TokenKind} (hk : k.isLineEnd = false) : Maintains (K d) J (Parser.eat k) := by
  intro c hc
  by_cases h : c.peek.kind = k
  · exact .ok (if_pos h) (hK.advance hc (h ▸ hk))
  · exact .ok (if_neg h) hc

theorem expect {k : TokenKind} (hk : k.isLineEnd = false) : Maintains (K d) J (Parser.expect k) := by
  intro c hc
  by_cases h : c.peek.kind = k
  · exact .ok (if_pos h) (hK.advance hc (h ▸ hk))
  · exact (hK.unexpected _ c hc).congr (if_neg h)

theorem identifier : Maintains (K d) J Parser.identifier := by
  intro c hc
  by_cases h : ∃ x, c.peek.kind = .identifier x
  · obtain ⟨x, h⟩ := h
    exact .ok (identifier_eq_ok.2 ⟨h, rfl, rfl⟩) (hK.advance hc (by rw [h]; rfl))
  · exact (hK.unexpected _ c hc).congr (identifier_eq_unexpected h)

theorem cons {t : Token} {rest : List Token} {prev : Span} {depth : Nat} (h : K d ⟨t :: rest, prev, depth⟩)
    (ht : t.kind.isLineEnd = false) : K d ⟨rest, t.span, depth⟩ := hK.advance h ht

/-- A name behind each dot, or an issue at the token that stands there instead. -/
theorem dottedTail (name : String) (s : Span) {rest : List Token} {prev : Span} {depth : Nat}
    (h : K d ⟨rest, prev, depth⟩) :
    EndsIn (K d) J (fun c => Parser.dottedTail name s c.depth c.prev c.rest) ⟨rest, prev, depth⟩ := by
  unfold EndsIn
  dsimp only
  fun_induction Parser.dottedTail name s depth prev rest with
  | case1 name s prev dot part s' rest ih => exact ih (hK.cons (hK.cons h rfl) rfl)
  | case2 name s prev dot rest _ =>
    have hbehind := hK.cons h rfl
    exact ⟨hK.blame _ _ hbehind, hbehind⟩
  | case3 => exact h

theorem dottedName : Maintains (K d) J Parser.dottedName :=
  .bind hK.identifier fun (name, s) _ hc => hK.dottedTail name s hc

/-- String literals are taken as far as they go, which never fails. -/
theorem stringTail (text : String) {rest : List Token} {prev : Span} {depth : Nat} (h : K d ⟨rest, prev, depth⟩) :
    EndsIn (K d) J (fun c => Parser.stringTail text c.prev c.depth c.rest) ⟨rest, prev, depth⟩ := by
  unfold EndsIn
  dsimp only
  fun_induction Parser.stringTail text prev depth rest with
  | case1 text prev next s rest ih => exact ih (hK.cons h rfl)
  | case2 => exact h

theorem basic (h : Basic p) : Maintains (K d) J p := by
  cases h with
  | pure a => exact .pure a
  | sees k => exact .sees k
  | reject code message => exact hK.reject code message
  | unexpected wanted => exact hK.unexpected wanted
  | eat hk => exact hK.eat hk
  | expect hk => exact hK.expect hk
  | identifier => exact hK.identifier
  | dottedName => exact hK.dottedName
  | adjacentStrings first => exact fun _ hc => hK.stringTail first hc

theorem commaList {close : TokenKind} (hp : Maintains (K d) J p) : Maintains (K d) J (Parser.commaList close p) := by
  have hloop : ∀ n, Maintains (K d) J (commaLoop close p n) := by
    intro n
    induction n with
    | zero => exact .pure _
    | succ n ih =>
      refine .bind (fun _ hc => .ok rfl hc) fun k => .ite (.pure _) (.bind hp fun x => ?_)
      exact .bind (hK.eat rfl) fun more => .ite (.bind ih fun xs => .pure _) (.pure _)
  exact fun c hc => (hloop c.rest.length c hc).congr rfl

theorem importNames {name : Parser (String × Span)} (hname : Maintains (K d) J name) :
    Maintains (K d) J (AnnotationChecker.importNames name) := by
  have hread : Maintains (K d) J (importedName name) :=
    .bind hname fun _ => .bind (hK.eat rfl) fun _ => .ite (.bind hK.identifier fun _ => .pure _) (.pure _)
  have hloop : ∀ n, Maintains (K d) J (importLoop name n) := by
    intro n
    induction n with
    | zero => exact .pure _
    | succ n ih =>
      exact .bind hread fun _ => .bind (hK.eat rfl) fun _ => .ite (.bind (.sees _) fun _ => .ite (.pure _) ih) (.pure _)
  exact fun c hc => (hloop c.rest.length c hc).congr rfl

/-- A name without the token that belongs behind it is to blame itself. -/
theorem named {k : TokenKind} (hk : k.isLineEnd = false) {f : String × Span → Parser α} {code : ErrorCode}
    {message : String × Span → String} (hf : ∀ name, Maintains (K d) J (f name)) :
    Maintains (K d) J (do
      let name ← Parser.identifier
      if ← Parser.eat k then f name else rejectAt name.2 code (message name)) := by
  intro c hc
  refine (hK.identifier c hc).bind ?_
  rintro ⟨name, s⟩ c₁ hname hc₁
  obtain ⟨-, rfl, -⟩ := identifier_eq_ok.1 hname
  refine (hK.eat hk c₁ hc₁).bind fun found c₂ _ hc₂ => ?_
  split
  · exact hf _ c₂ hc₂
  · exact .error rfl (hK.blame _ _ hc) hc₂

theorem enterLevel : Maintains (K true) J Parser.enter := by
  intro c hc
  by_cases h : maxNesting ≤ c.depth
  · exact (hK.reject _ _ c hc).congr (if_pos h)
  · exact .ok (if_neg h) (hK.enter hc)

theorem levelled (h : EndsIn (K true) J p c) (hc : K d c) : EndsIn (K d) J (Parser.levelled p) c := by
  cases hread : p c with
  | ok a c' => exact .ok (by rw [Parser.levelled, hread]) (hK.comeBack hc (h.of_ok hread))
  | error i c' =>
    obtain ⟨hi, hc'⟩ := h.of_error hread
    exact .error (by rw [Parser.levelled, hread]) hi (hK.comeBack hc hc')

end Invariant

/-! ## Everything that is put together -/

/-- An invariant is maintained if the parser for the inside maintains it. -/
theorem Composed.endsIn {q p : Parser ι} {m : Bool} {x y : Parser α} (h : Composed q p d m x y) (hK : Invariant K J)
    (hp : ∀ d, Maintains (K d) J p) (hc : K d c) (hm : m = true → c.peek.kind.isLineEnd = false) :
    EndsIn (K d) J y c := by
  induction h generalizing c with
  | inner => exact hp _ c hc
  | basic h => exact hK.basic h c hc
  | bind _ _ ih ihf => exact .bind (ih hc hm) fun a c' _ hc' => ihf a hc' nofun
  | look _ ihf =>
    refine .bind (.ok rfl hc) ?_
    rintro k c' ⟨⟩ -
    exact ihf _ hc (by simp)
  | lookBehind _ ihf =>
    refine .bind (.ok rfl hc) ?_
    rintro b c' ⟨⟩ -
    exact ihf _ hc hm
  | take _ ih => exact .bind (.ok rfl (hK.advance hc (hm rfl))) fun _ c' _ hc' => ih hc' nofun
  | named hk _ ihf => exact hK.named hk (fun name c hc => ihf name hc nofun) c hc
  | spanned _ ih => exact .spanned (ih hc hm) hc
  | commaList _ ih => exact hK.commaList (fun c hc => ih hc nofun) c hc
  | importNames _ ih => exact hK.importNames (fun c hc => ih hc nofun) c hc
  | enter => exact hK.enterLevel c hc
  | levelled _ ih => exact hK.levelled (ih (hK.relax hc) hm) hc
  | atLevel _ ih => exact (ih c.depth hc hm).congr rfl

theorem Whole.endsIn {m : Bool} {x : Parser α} (h : Whole m x) (hK : Invariant K J) (hc : K false c)
    (hm : m = true → c.peek.kind.isLineEnd = false) : EndsIn (K false) J x c :=
  Composed.endsIn h hK (fun _ => .pure ()) hc hm

end Parser

end AnnotationChecker
