import AnnotationChecker.Expr.Parser
import AnnotationChecker.Proofs.Token.Derivation
/-!
# The grammar of expressions

Which tokens derive an expression (`Expr.Derives`), with one level for every expression inside of another one, and
that the parser of expressions recognizes just that (`Expr.parser_recognizes`).
-/

namespace AnnotationChecker

open AnnotationChecker.Parser

/-- String literals, and their texts joined. -/
inductive Strings : List Token → String → Prop
  | nil : Strings [] ""
  | cons {a b : String} {s : Span} {ts : List Token} : Strings ts b → Strings (⟨.string a, s⟩ :: ts) (a ++ b)

/-- The number behind a minus sign stands for its negative. -/
inductive Negated {α : Type} (int : Int → α) (float : Binary64 → α) : TokenKind → α → Prop
  | int {v : Int} : Negated int float (.int v) (int (-v))
  | float {v : Binary64} : Negated int float (.float v) (float v.neg)

theorem Negated.ne_eof {α : Type} {int : Int → α} {float : Binary64 → α} {k : TokenKind} {a : α}
    (h : Negated int float k a) : k ≠ .eof := by
  cases h <;> simp

namespace Expr

/-- What a single token stands for. -/
inductive Single : TokenKind → (Span → Expr) → Prop
  | int {v : Int} : Single (.int v) (.int · v)
  | float {v : Binary64} : Single (.float v) (.float · v)
  | bytes {v : String} : Single (.bytes v) (.bytes · v)
  | formatted {v : String} : Single (.formatted v) (.formatted · v)
  | trueWord : Single (.keyword .trueWord) (.bool · true)
  | falseWord : Single (.keyword .falseWord) (.bool · false)
  | noneWord : Single (.keyword .noneWord) .none

mutual

/-- The forms of an expression, its span still to be set: how many levels there are inside of it. -/
inductive Form : List Token → Nat → (Span → Expr) → Prop
  | single {k : TokenKind} {s : Span} {make : Span → Expr} : Single k make → Form [⟨k, s⟩] 0 make
  | negative {k : TokenKind} {s s' : Span} {make : Span → Expr} :
      Negated (fun v s => .int s v) (fun v s => .float s v) k make → Form [⟨.mark .minus, s⟩, ⟨k, s'⟩] 0 make
  | str {a b : String} {s : Span} {ts : List Token} : Strings ts b → Form (⟨.string a, s⟩ :: ts) 0 (.str · (a ++ b))
  | name {x : String} {s : Span} : Form [⟨.identifier x, s⟩] 0 (.name · x)
  | list {s s' : Span} {ts : List Token} {n : Nat} {es : List Expr} : Separated Derives ts n es →
      Form (⟨.mark .leftBracket, s⟩ :: (ts ++ [⟨.mark .rightBracket, s'⟩])) n (.list · es)
  | call {x : String} {s s' s'' : Span} {ts : List Token} {n : Nat} {args : List Expr} : Separated Derives ts n args →
      Form (⟨.identifier x, s⟩ :: ⟨.mark .leftParen, s'⟩ :: (ts ++ [⟨.mark .rightParen, s''⟩])) n
        (.call · ⟨x, s⟩ args)
  | paren {s s' : Span} {ts : List Token} {n : Nat} {e : Expr} : Derives ts n e →
      Form (⟨.mark .leftParen, s⟩ :: (ts ++ [⟨.mark .rightParen, s'⟩])) n e.withSpan

/-- The tokens of an expression, which is one level by itself. -/
inductive Derives : List Token → Nat → Expr → Prop
  | form {ts : List Token} {n : Nat} {make : Span → Expr} : Form ts n make → Derives ts (n + 1) (make (covering ts))

end

/-- A string goes on with a string, and a name with its arguments; an attribute would go on with a name, too. -/
def GoesOn (ts : List Token) (k : TokenKind) : Prop :=
  match lastKind ts with
  | some (.string _) => ∃ b, k = .string b
  | some (.identifier _) => k = .mark .leftParen ∨ k = .mark .dot
  | _ => False

/-- An item of a list might go on as a keyword argument. -/
def ItemGoesOn (ts : List Token) (k : TokenKind) : Prop := GoesOn ts k ∨ k = .mark .equals

end Expr

namespace Parser

variable {α : Type} {c c' : Cursor}

theorem stringTail_eq_ok {text r : String} {s : Span} {depth : Nat} {rest : List Token} :
    stringTail text s depth rest = .ok r c' ↔
      ∃ ts b, Cursor.Takes ⟨rest, s, depth⟩ ts c' ∧ Strings ts b ∧ r = text ++ b ∧ ∀ x, c'.peek.kind ≠ .string x := by
  constructor
  · intro h
    induction text, s, rest using stringTail.induct with
    | case1 text prev next s rest ih =>
      rw [stringTail] at h
      obtain ⟨ts, b, htakes, hts, rfl, hend⟩ := ih h
      have hfirst : Cursor.Takes ⟨⟨.string next, s⟩ :: rest, prev, depth⟩ [⟨.string next, s⟩] ⟨rest, s, depth⟩ :=
        .single rfl
      exact ⟨_, _, hfirst.trans htakes, .cons hts, String.append_assoc .., hend⟩
    | case2 text prev rest hrest =>
      rw [stringTail.eq_2 _ _ _ _ hrest] at h
      cases h
      refine ⟨[], "", .refl _, .nil, String.append_empty.symm, fun x hx => ?_⟩
      exact hrest x _ _ (Cursor.rest_of_peek hx (by simp))
  · rintro ⟨ts, b, htakes, hts, rfl, hend⟩
    induction hts generalizing text s rest with
    | nil =>
      obtain rfl := htakes.eq_of_nil
      rw [stringTail, String.append_empty]
      rintro x s' us rfl
      exact hend x rfl
    | @cons a b s' ts _ ih =>
      obtain rfl := htakes.rest
      rw [List.cons_append, stringTail, ← String.append_assoc]
      exact ih htakes.tail.2

theorem adjacentStrings_eq_ok {a r : String} : adjacentStrings a c = .ok r c' ↔
    ∃ ts b, c.Takes ts c' ∧ Strings ts b ∧ r = a ++ b ∧ ∀ x, c'.peek.kind ≠ .string x :=
  stringTail_eq_ok

theorem negated_eq_ok {int : Int → α} {float : Binary64 → α} {a : α} :
    negated int float c = .ok a c' ↔ Negated int float c.peek.kind a ∧ c.advance = c' := by
  unfold negated
  rw [bind_peek]
  cases c.peek.kind with
  | int v =>
    rw [advance_pure_eq_ok]
    exact and_congr_left fun _ => ⟨fun h => h ▸ .int, fun h => by cases h; rfl⟩
  | float v =>
    rw [advance_pure_eq_ok]
    exact and_congr_left fun _ => ⟨fun h => h ▸ .float, fun h => by cases h; rfl⟩
  | _ =>
    constructor
    · intro h
      cases h
    · rintro ⟨⟨⟩, -⟩

end Parser

namespace Expr

variable {ts : List Token} {n : Nat} {e : Expr} {make : Span → Expr} {k : TokenKind} {c c' : Cursor}

theorem derives_iff : Derives ts n e ↔ ∃ m make, Form ts m make ∧ n = m + 1 ∧ e = make (covering ts) := by
  constructor
  · rintro ⟨h⟩
    exact ⟨_, _, h, rfl, rfl⟩
  · rintro ⟨m, make, h, rfl, rfl⟩
    exact .form h

/-- An expression has a first token, which neither closes a list nor ends the file. -/
theorem Form.begins (h : Form ts n make) :
    ∃ t us, ts = t :: us ∧ t.kind ≠ .mark .rightBracket ∧ t.kind ≠ .mark .rightParen ∧ t.kind ≠ .eof := by
  cases h with
  | single h => cases h <;> exact ⟨_, _, rfl, by simp, by simp, by simp⟩
  | negative | str | name | list | call | paren => exact ⟨_, _, rfl, by simp, by simp, by simp⟩

/-- What ends in a string goes on with a string only, what ends in a name with a parenthesis or a dot, and nothing else
goes on. -/
theorem not_goesOn (hs : ∀ b, k ≠ .string b) (hp : k ≠ .mark .leftParen) (hd : k ≠ .mark .dot) : ¬ GoesOn ts k := by
  unfold GoesOn
  split
  · rintro ⟨b, rfl⟩
    exact hs b rfl
  · simp [hp, hd]
  · exact id

/-- Items end before a comma and before what closes the list. -/
theorem listed {close : Mark} (h : close = .rightBracket ∨ close = .rightParen) :
    Listed Derives ItemGoesOn (.mark close) where
  begins := by
    rintro ts n e ⟨hf⟩
    obtain ⟨t, us, hts, hb, hp, heof⟩ := hf.begins
    exact ⟨t, us, hts, by rcases h with rfl | rfl <;> assumption, heof⟩
  comma _ := not_or.2 ⟨not_goesOn (by simp) (by simp) (by simp), by simp⟩
  ends _ := by rcases h with rfl | rfl <;> exact not_or.2 ⟨not_goesOn (by simp) (by simp) (by simp), by simp⟩
  differs := by rcases h with rfl | rfl <;> simp

theorem Single.ne_eof (h : Single k make) : k ≠ .eof := by
  cases h <;> simp

theorem Single.not_goesOn {s : Span} {k' : TokenKind} (h : Single k make) : ¬ GoesOn [⟨k, s⟩] k' := by
  cases h <;> simp [GoesOn]

theorem goesOn_strings {a b : String} {s : Span} (h : Strings ts b) :
    GoesOn (⟨.string a, s⟩ :: ts) k ↔ ∃ b, k = .string b := by
  induction h generalizing a s with
  | nil => simp [GoesOn]
  | @cons a' _ s' _ _ ih =>
    rw [← @ih a' s']
    simp [GoesOn]

variable {inner : Parser Expr} {depth : Nat}

theorem recognizes_item (hinner : Recognizes Derives GoesOn inner c) :
    Recognizes Derives ItemGoesOn (item inner) c where
  sound e c' h := by
    obtain ⟨e', c₁, he, h⟩ := bind_eq_ok.1 h
    obtain ⟨ts, n, htakes, hd, hn, hnot⟩ := hinner.sound e' c₁ he
    obtain ⟨b, _, ⟨⟩, h⟩ := bind_eq_ok.1 h
    split at h
    · cases h
    · next heq =>
      obtain ⟨rfl, rfl⟩ := pure_eq_ok.1 h
      exact ⟨ts, n, htakes, hd, hn, not_or.2 ⟨hnot, by simpa using heq⟩⟩
  complete ts n e c' htakes hd hn hnot := by
    obtain ⟨hnot, heq⟩ := not_or.1 hnot
    unfold item
    rw [bind_of_ok (hinner.complete ts n e c' htakes hd hn hnot), bind_of_ok (sees_of_ne heq)]
    rfl
  limit ts n e c' htakes hd hn := (hinner.limit ts n e c' htakes hd hn).bind fun _ ht => ht

section

variable (hinner : RecognizesAt Derives GoesOn inner depth) (hdepth : depth ≤ maxNesting) (hc : c.depth = depth)

include hinner hdepth hc

theorem sound_items {close : Mark} {es : List Expr} (h : items inner close c = .ok es c') :
    ∃ ts n s, c.Takes (ts ++ [⟨.mark close, s⟩]) c' ∧ Separated Derives ts n es ∧ depth + n ≤ maxNesting := by
  subst hc
  obtain ⟨es', c₁, hes, h⟩ := bind_eq_ok.1 h
  obtain ⟨rfl, s, hlast⟩ := closed_eq_ok.1 h
  obtain ⟨ts, n, htakes, hd, hn⟩ := sound_commaList (fun c hc => (recognizes_item (hinner c hc)).toSound) hdepth hes
  exact ⟨ts, n, s, htakes.trans hlast, hd, hn⟩

theorem reads_items {close : Mark} (hclose : close = .rightBracket ∨ close = .rightParen) {es : List Expr} {s : Span}
    (htakes : c.Takes (ts ++ [⟨.mark close, s⟩]) c') (hd : Separated Derives ts n es) :
    Reads (items inner close) c (ts ++ [⟨.mark close, s⟩]) c' es (depth + n ≤ maxNesting) (maxNesting < depth + n) := by
  subst hc
  obtain ⟨c₁, hitems, hlast⟩ := htakes.split
  have hkind : c₁.peek.kind = .mark close := by rw [hlast.peek]
  have hitem : RecognizesAt Derives ItemGoesOn (item inner) c.depth := fun c hc => recognizes_item (hinner c hc)
  exact (reads_commaList (listed hclose) hitem hdepth hitems hd hkind).close hlast rfl

theorem sound_callWith {x : Ident × List Expr} (h : callWith inner c = .ok x c') :
    ∃ f s s' s'' ts n args, x = (⟨f, s⟩, args) ∧
      c.Takes (⟨.identifier f, s⟩ :: ⟨.mark .leftParen, s'⟩ :: (ts ++ [⟨.mark .rightParen, s''⟩])) c' ∧
      Separated Derives ts n args ∧ depth + n ≤ maxNesting := by
  obtain ⟨⟨f, s⟩, c₁, hname, h⟩ := bind_eq_ok.1 h
  obtain ⟨hf, rfl, rfl⟩ := identifier_eq_ok.1 hname
  obtain ⟨_, c₂, hopen, h⟩ := bind_eq_ok.1 h
  obtain ⟨hmark, rfl⟩ := expect_eq_ok.1 hopen
  obtain ⟨args, c₃, hargs, h⟩ := bind_eq_ok.1 h
  obtain ⟨rfl, rfl⟩ := pure_eq_ok.1 h
  have hfirst := Cursor.takes_of_peek hf (by simp)
  have hsecond := Cursor.takes_of_peek hmark (by simp)
  obtain ⟨ts, n, s'', htakes, hd, hn⟩ :=
    sound_items hinner hdepth (hsecond.depth.trans (hfirst.depth.trans hc)) hargs
  exact ⟨f, _, _, s'', ts, n, args, rfl, hfirst.trans (hsecond.trans htakes), hd, hn⟩

theorem reads_callWith {f : String} {s s' s'' : Span} {args : List Expr}
    (htakes : c.Takes (⟨.identifier f, s⟩ :: ⟨.mark .leftParen, s'⟩ :: (ts ++ [⟨.mark .rightParen, s''⟩])) c')
    (hd : Separated Derives ts n args) :
    Reads (callWith inner) c (⟨.identifier f, s⟩ :: ⟨.mark .leftParen, s'⟩ :: (ts ++ [⟨.mark .rightParen, s''⟩])) c'
      (⟨f, s⟩, args) (depth + n ≤ maxNesting) (maxNesting < depth + n) := by
  obtain ⟨hfirst, hlater⟩ := htakes.tail
  obtain ⟨hsecond, hitems⟩ := hlater.tail
  have hname : identifier c = .ok (f, s) c.advance := identifier_eq_ok.2 ⟨by rw [htakes.peek], by rw [htakes.peek], rfl⟩
  have hopen : expect (.mark .leftParen) c.advance = .ok () c.advance.advance := expect_of_eq (by rw [hlater.peek])
  have hread := reads_items hinner hdepth (hsecond.depth.trans (hfirst.depth.trans hc)) (.inr rfl) hitems hd
  refine (hread.map fun es => (Ident.mk f s, es)).congr ?_ fun t ht =>
    List.mem_cons_of_mem _ (List.mem_cons_of_mem _ ht)
  unfold callWith
  rw [bind_of_ok hname]
  exact bind_of_ok hopen

theorem sound_body (h : body inner c = .ok make c') :
    ∃ ts n, c.Takes ts c' ∧ Form ts n make ∧ depth + n ≤ maxNesting ∧ ¬ GoesOn ts c'.peek.kind := by
  unfold body at h
  rw [bind_peek] at h
  generalize hk : c.peek.kind = k at h
  -- what takes a single token
  have hsingle : ∀ {make' : Span → Expr}, Single k make' →
      (do Parser.advance; pure make' : Parser (Span → Expr)) c = .ok make c' →
      ∃ ts n, c.Takes ts c' ∧ Form ts n make ∧ depth + n ≤ maxNesting ∧ ¬ GoesOn ts c'.peek.kind := by
    intro make' hl h
    obtain ⟨rfl, rfl⟩ := advance_pure_eq_ok.1 h
    exact ⟨_, 0, Cursor.takes_of_peek hk hl.ne_eof, .single hl, hdepth, hl.not_goesOn⟩
  cases k with
  | int v => exact hsingle .int h
  | float v => exact hsingle .float h
  | bytes v => exact hsingle .bytes h
  | formatted v => exact hsingle .formatted h
  | string a =>
    have hfirst := Cursor.takes_of_peek hk (by simp)
    obtain ⟨_, _, ⟨⟩, h⟩ := bind_eq_ok.1 h
    obtain ⟨r, c₁, hr, h⟩ := bind_eq_ok.1 h
    obtain ⟨rfl, rfl⟩ := pure_eq_ok.1 h
    obtain ⟨ts, b, htakes, hts, rfl, hend⟩ := adjacentStrings_eq_ok.1 hr
    refine ⟨_, 0, hfirst.trans htakes, .str hts, hdepth, fun hgo => ?_⟩
    obtain ⟨x, hx⟩ := (goesOn_strings hts).1 hgo
    exact hend x hx
  | identifier x =>
    obtain ⟨called, _, ⟨⟩, h⟩ := bind_eq_ok.1 h
    split at h
    · obtain ⟨⟨f, args⟩, c₁, hcall, h⟩ := bind_eq_ok.1 h
      obtain ⟨rfl, rfl⟩ := pure_eq_ok.1 h
      obtain ⟨f, s, s', s'', ts, n, args, ⟨⟩, htakes, hd, hn⟩ := sound_callWith hinner hdepth hc hcall
      exact ⟨_, n, htakes, .call hd, hn, by simp [GoesOn]⟩
    · next hcalled =>
      have hfirst := Cursor.takes_of_peek hk (by simp)
      obtain ⟨_, _, ⟨⟩, h⟩ := bind_eq_ok.1 h
      obtain ⟨dotted, _, ⟨⟩, h⟩ := bind_eq_ok.1 h
      split at h
      · cases h
      · next hdotted =>
        obtain ⟨rfl, rfl⟩ := pure_eq_ok.1 h
        refine ⟨_, 0, hfirst, .name, hdepth, ?_⟩
        rw [decide_eq_true_iff] at hcalled hdotted
        simpa [GoesOn] using ⟨hcalled, hdotted⟩
  | keyword w =>
    cases w with
    | trueWord => exact hsingle .trueWord h
    | falseWord => exact hsingle .falseWord h
    | noneWord => exact hsingle .noneWord h
    | _ => cases h
  | mark m =>
    have hfirst := Cursor.takes_of_peek hk (by simp)
    cases m with
    | minus =>
      obtain ⟨_, _, ⟨⟩, h⟩ := bind_eq_ok.1 h
      obtain ⟨hnum, rfl⟩ := negated_eq_ok.1 h
      have hsecond := Cursor.takes_of_peek (c := c.advance) rfl hnum.ne_eof
      refine ⟨_, 0, hfirst.trans hsecond, .negative hnum, hdepth, ?_⟩
      generalize c.advance.peek.kind = k at hnum
      cases hnum <;> simp [GoesOn]
    | leftBracket =>
      obtain ⟨_, _, ⟨⟩, h⟩ := bind_eq_ok.1 h
      obtain ⟨es, c₁, hes, h⟩ := bind_eq_ok.1 h
      obtain ⟨rfl, rfl⟩ := pure_eq_ok.1 h
      obtain ⟨ts, n, s, htakes, hd, hn⟩ := sound_items hinner hdepth (hfirst.depth.trans hc) hes
      exact ⟨_, n, hfirst.trans htakes, .list hd, hn, by simp [GoesOn]⟩
    | leftParen =>
      obtain ⟨_, _, ⟨⟩, h⟩ := bind_eq_ok.1 h
      obtain ⟨e, c₁, he, h⟩ := bind_eq_ok.1 h
      obtain ⟨rfl, s, hlast⟩ := closed_eq_ok.1 h
      obtain ⟨ts, n, htakes, hd, hn, -⟩ := (hinner _ (hfirst.depth.trans hc)).sound e c₁ he
      rw [hfirst.depth, hc] at hn
      exact ⟨_, n, hfirst.trans (htakes.trans hlast), .paren hd, hn, by simp [GoesOn]⟩
    | _ => cases h
  | _ => cases h

theorem reads_body (htakes : c.Takes ts c') (hf : Form ts n make) :
    Reads (body inner) c ts c' make (depth + n ≤ maxNesting ∧ ¬ GoesOn ts c'.peek.kind) (maxNesting < depth + n) := by
  cases hf with
  | single hl =>
    refine .leaf hdepth fun _ => ?_
    unfold body
    rw [bind_peek_of_takes htakes, ← htakes.advance_eq]
    cases hl <;> rfl
  | negative hnum =>
    refine .leaf hdepth fun _ => ?_
    obtain ⟨-, hlater⟩ := htakes.tail
    unfold body
    rw [bind_peek_of_takes htakes]
    exact negated_eq_ok.2 ⟨by rw [hlater.peek]; exact hnum, hlater.advance_eq⟩
  | @str a b s us hstrings =>
    refine .leaf hdepth fun hnot => ?_
    have hend : ∀ x, c'.peek.kind ≠ .string x := fun x hx => hnot ((goesOn_strings hstrings).2 ⟨x, hx⟩)
    have htail : adjacentStrings a c.advance = .ok (a ++ b) c' :=
      adjacentStrings_eq_ok.2 ⟨us, b, htakes.tail.2, hstrings, rfl, hend⟩
    unfold body
    rw [bind_peek_of_takes htakes]
    exact bind_of_ok htail
  | name =>
    refine .leaf hdepth fun hnot => ?_
    obtain ⟨hcall, hdot⟩ : c'.peek.kind ≠ .mark .leftParen ∧ c'.peek.kind ≠ .mark .dot := by
      simpa [GoesOn] using hnot
    obtain rfl := htakes.advance_eq
    have hnext : seesNext (.mark .leftParen) c = .ok false c := by
      unfold seesNext
      rw [decide_eq_false hcall]
    have hadvance : Parser.advance c = .ok () c.advance := rfl
    unfold body
    rw [bind_peek_of_takes htakes]
    refine (bind_of_ok hnext).trans ?_
    exact (bind_of_ok hadvance).trans (bind_of_ok (sees_of_ne hdot))
  | list hd =>
    obtain ⟨hfirst, hlater⟩ := htakes.tail
    have hread := reads_items hinner hdepth (hfirst.depth.trans hc) (.inl rfl) hlater hd
    have hlist := hread.map fun es (s : Span) => Expr.list s es
    refine (hlist.congr ?_ fun t ht => List.mem_cons_of_mem _ ht).mono And.left id
    unfold body
    rw [bind_peek_of_takes htakes]
    rfl
  | call hd =>
    have hread := reads_callWith hinner hdepth hc htakes hd
    have hnext : seesNext (.mark .leftParen) c = .ok true c := by
      unfold seesNext
      rw [decide_eq_true (by rw [htakes.tail.2.peek])]
    have hcall := hread.map fun r (s : Span) => Expr.call s r.1 r.2
    refine (hcall.congr ?_ fun _ ht => ht).mono And.left id
    unfold body
    rw [bind_peek_of_takes htakes]
    exact bind_of_ok hnext
  | paren hd =>
    obtain ⟨hfirst, hlater⟩ := htakes.tail
    obtain ⟨c₁, hinside, hlast⟩ := hlater.split
    have hread := (hinner _ (hfirst.depth.trans hc)).reads hinside hd
    rw [hfirst.depth, hc] at hread
    have hclosed := hread.close (f := fun e => do expect (.mark .rightParen); pure e.withSpan) hlast rfl
    refine (hclosed.congr ?_ fun t ht => List.mem_cons_of_mem _ ht).mono (fun h => ⟨h.1, ?_⟩) id
    · unfold body
      rw [bind_peek_of_takes htakes]
      rfl
    · rw [hlast.peek]
      exact not_goesOn (by simp) (by simp) (by simp)

theorem recognizes_body : Recognizes Form GoesOn (body inner) c := by
  subst hc
  exact recognizes_of_reads (fun _ _ => sound_body hinner hdepth rfl) fun _ _ _ _ => reads_body hinner hdepth rfl

end

/-- Every level that is left is a step of the induction. -/
theorem recognizes_parserWithin {room : Nat} (h : room = maxNesting - c.depth) :
    Recognizes Derives GoesOn (parserWithin room) c := by
  induction room generalizing c with
  | zero =>
    refine recognizes_tooDeep ?_ (by omega)
    rintro ts n e ⟨hf⟩
    obtain ⟨t, us, rfl, -⟩ := hf.begins
    exact ⟨Nat.succ_pos _, t, us, rfl⟩
  | succ room ih =>
    have hinner : RecognizesAt Derives GoesOn (parserWithin room) (c.depth + 1) := fun c' hc' => ih (by omega)
    refine recognizes_deeper derives_iff ?_ (by omega) (recognizes_body hinner (by omega) rfl)
    intro ts n make hf
    obtain ⟨t, us, hts, -⟩ := hf.begins
    exact ⟨t, us, hts⟩

theorem parser_recognizes (c : Cursor) : Recognizes Derives GoesOn parser c :=
  have h := recognizes_parserWithin (c := c) rfl
  ⟨h.sound, h.complete, h.limit⟩

end Expr

end AnnotationChecker
