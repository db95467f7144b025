import AnnotationChecker.Proofs.Hint.Grammar
import AnnotationChecker.Proofs.Statement.LineEnds
/-!
# The grammar of statements

Which tokens derive a statement, and over how many levels (`StatementKind.Derives`). The parsers of statements are sound
for it, the span of a statement runs over its tokens, and what is read next is behind the end of its line
(`Line.carries_read`).
-/

namespace AnnotationChecker

open AnnotationChecker.Parser

/-- The tokens of a parameter. -/
inductive Param.Derives : Language Param
  | annotated {x : String} {s s' : Span} {ts : List Token} {n : Nat} {h : Hint} : Hint.Derives ts n h →
      Param.Derives (⟨.identifier x, s⟩ :: ⟨.mark .colon, s'⟩ :: ts) n ⟨⟨x, s⟩, h⟩

/-- The tokens of a statement, without its body if it is a function. -/
inductive StatementKind.Derives : Language StatementKind
  | declare {x : String} {s s' : Span} {ts : List Token} {n : Nat} {h : Hint} : Hint.Derives ts n h →
      Derives (⟨.identifier x, s⟩ :: ⟨.mark .colon, s'⟩ :: ts) n (.declare ⟨x, s⟩ h none)
  | init {x : String} {s s' s'' : Span} {ts us : List Token} {n m : Nat} {h : Hint} {e : Expr} :
      Hint.Derives ts n h → Expr.Derives us m e →
      Derives (⟨.identifier x, s⟩ :: ⟨.mark .colon, s'⟩ :: (ts ++ ⟨.mark .equals, s''⟩ :: us)) (max n m)
        (.declare ⟨x, s⟩ h (some e))
  | assign {x : String} {s s' : Span} {ts : List Token} {n : Nat} {e : Expr} : Expr.Derives ts n e →
      Derives (⟨.identifier x, s⟩ :: ⟨.mark .equals, s'⟩ :: ts) n (.assign ⟨x, s⟩ e)
  | call {x : String} {s s' s'' : Span} {ts : List Token} {n : Nat} {args : List Expr} :
      Separated Expr.Derives ts n args →
      Derives (⟨.identifier x, s⟩ :: ⟨.mark .leftParen, s'⟩ :: (ts ++ [⟨.mark .rightParen, s''⟩])) n (.call ⟨x, s⟩ args)
  | define {x : String} {s₀ s s' s'' a c : Span} {ts us : List Token} {n m : Nat} {params : List Param} {ret : Hint} :
      Separated Param.Derives ts n params → Hint.Derives us m ret →
      Derives (⟨.keyword .defWord, s₀⟩ :: ⟨.identifier x, s⟩ :: ⟨.mark .leftParen, s'⟩ ::
          (ts ++ ⟨.mark .rightParen, s''⟩ :: ⟨.mark .arrow, a⟩ :: (us ++ [⟨.mark .colon, c⟩]))) (max n m)
        (.define ⟨x, s⟩ params ret)

theorem StatementKind.Derives.ne_nil {ts : List Token} {n : Nat} {k : StatementKind} (h : k.Derives ts n) : ts ≠ [] := by
  cases h <;> simp

/-! ## Steps of a parser -/

namespace Parser

variable {α β : Type} {c c' : Cursor} {b : β} {k : TokenKind}

theorem takes_of_identifier {f : String × Span → Parser β} (h : (identifier >>= f) c = .ok b c') :
    ∃ x s c₁, c.Takes [⟨.identifier x, s⟩] c₁ ∧ f (x, s) c₁ = .ok b c' := by
  obtain ⟨⟨x, s⟩, c₁, hname, h⟩ := bind_eq_ok.1 h
  obtain ⟨hkind, rfl, rfl⟩ := identifier_eq_ok.1 hname
  exact ⟨x, _, _, Cursor.takes_of_peek hkind (by simp), h⟩

theorem takes_of_expect (hk : k ≠ .eof) {p : Parser β} (h : (do expect k; p) c = .ok b c') :
    ∃ s c₁, c.Takes [⟨k, s⟩] c₁ ∧ p c₁ = .ok b c' := by
  obtain ⟨_, c₁, hmark, h⟩ := bind_eq_ok.1 h
  obtain ⟨hkind, rfl⟩ := expect_eq_ok.1 hmark
  exact ⟨_, _, Cursor.takes_of_peek hkind hk, h⟩

/-- A token is taken, or nothing is. -/
theorem takes_of_eat (hk : k ≠ .eof) {f : Bool → Parser β} (h : (eat k >>= f) c = .ok b c') :
    (∃ s c₁, c.Takes [⟨k, s⟩] c₁ ∧ f true c₁ = .ok b c') ∨ f false c = .ok b c' := by
  obtain ⟨taken, c₁, heat, h⟩ := bind_eq_ok.1 h
  by_cases hkind : c.peek.kind = k
  · rw [eat_of_eq hkind] at heat
    cases heat
    exact .inl ⟨_, _, Cursor.takes_of_peek hkind hk, h⟩
  · rw [eat_of_ne hkind] at heat
    cases heat
    exact .inr h

/-- Behind some tokens, a parser that is sound takes those of its value, on the level from before. -/
theorem takes_of_sound {L : Language α} {p : Parser α} {f : α → Parser β} {c₀ : Cursor} {front : List Token}
    (hp : ∀ c, Sound L p c) (hfront : c₀.Takes front c) (h : (p >>= f) c = .ok b c') :
    ∃ a ts n c₁, c.Takes ts c₁ ∧ L ts n a ∧ c₀.depth + n ≤ maxNesting ∧ f a c₁ = .ok b c' := by
  obtain ⟨a, c₁, ha, h⟩ := bind_eq_ok.1 h
  obtain ⟨ts, n, htakes, hd, hn⟩ := hp c a c₁ ha
  rw [hfront.depth] at hn
  exact ⟨a, ts, n, c₁, htakes, hd, hn, h⟩

theorem sound_hint (c : Cursor) : Sound Hint.Derives Hint.parser c := (Hint.parser_recognizes c).toSound

theorem sound_expr (c : Cursor) : Sound Expr.Derives Expr.parser c := (Expr.parser_recognizes c).toSound

end Parser

/-! ## Statements -/

variable {c : Cursor}

theorem sound_declarationParser (c : Cursor) : Sound StatementKind.Derives declarationParser c := by
  intro k c' h
  obtain ⟨x, s, c₁, hname, h⟩ := takes_of_identifier h
  obtain ⟨s', c₂, hcolon, h⟩ := takes_of_expect (by simp) h
  obtain ⟨hint, ts, n, c₃, hhint, hd, hn, h⟩ := takes_of_sound sound_hint (hname.trans hcolon) h
  have hfront := hname.trans (hcolon.trans hhint)
  rcases takes_of_eat (by simp) h with ⟨s'', c₄, hequals, h⟩ | h
  · obtain ⟨e, us, m, c₅, hvalue, hd', hm, h⟩ := takes_of_sound sound_expr (hfront.trans hequals) h
    obtain ⟨rfl, rfl⟩ := pure_eq_ok.1 h
    exact ⟨_, _, hfront.trans (hequals.trans hvalue), .init hd hd', by omega⟩
  · obtain ⟨rfl, rfl⟩ := pure_eq_ok.1 h
    exact ⟨_, n, hfront, .declare hd, hn⟩

theorem sound_assignmentParser (c : Cursor) : Sound StatementKind.Derives assignmentParser c := by
  intro k c' h
  obtain ⟨x, s, c₁, hname, h⟩ := takes_of_identifier h
  obtain ⟨s', c₂, hequals, h⟩ := takes_of_expect (by simp) h
  obtain ⟨e, ts, n, c₃, hvalue, hd, hn, h⟩ := takes_of_sound sound_expr (hname.trans hequals) h
  obtain ⟨rfl, rfl⟩ := pure_eq_ok.1 h
  exact ⟨_, n, hname.trans (hequals.trans hvalue), .assign hd, hn⟩

theorem sound_paramParser (f : String) (c : Cursor) : Sound Param.Derives (paramParser f) c := by
  intro x c' h
  unfold paramParser paramWith at h
  rw [bind_peek] at h
  generalize c.peek.kind = kind at h
  split at h
  · split at h <;> cases h
  · obtain ⟨y, s, c₁, hname, h⟩ := takes_of_identifier h
    rcases takes_of_eat (by simp) h with ⟨s', c₂, hcolon, h⟩ | h
    · obtain ⟨hint, ts, n, c₃, hhint, hd, hn, h⟩ := takes_of_sound sound_hint (hname.trans hcolon) h
      obtain ⟨valued, _, ⟨⟩, h⟩ := bind_eq_ok.1 h
      split at h
      · cases h
      · obtain ⟨rfl, rfl⟩ := pure_eq_ok.1 h
        exact ⟨_, n, hname.trans (hcolon.trans hhint), .annotated hd, hn⟩
    · cases h

section

variable (hdepth : c.depth ≤ maxNesting)

include hdepth

theorem sound_callStatementParser : Sound StatementKind.Derives callStatementParser c := by
  intro k c' h
  obtain ⟨⟨f, args⟩, c₁, hcall, h⟩ := bind_eq_ok.1 h
  obtain ⟨rfl, rfl⟩ := pure_eq_ok.1 h
  obtain ⟨f, s, s', s'', ts, n, args, ⟨⟩, htakes, hd, hn⟩ :=
    Expr.sound_callWith (fun c _ => Expr.parser_recognizes c) hdepth rfl hcall
  exact ⟨_, n, htakes, .call hd, hn⟩

theorem sound_signatureParser (hk : c.peek.kind = .keyword .defWord) :
    Sound StatementKind.Derives signatureParser c := by
  intro k c' h
  have hfirst := Cursor.takes_of_peek hk (by simp)
  obtain ⟨_, _, ⟨⟩, h⟩ := bind_eq_ok.1 h
  obtain ⟨x, s, c₁, hname, h⟩ := takes_of_identifier h
  obtain ⟨s', c₂, hopen, h⟩ := takes_of_expect (by simp) h
  obtain ⟨params, c₃, hparams, h⟩ := bind_eq_ok.1 h
  have hfront := hfirst.trans (hname.trans hopen)
  have hdepth' : c₂.depth ≤ maxNesting := by rwa [hfront.depth]
  obtain ⟨ts, n, htakes, hd, hn⟩ := sound_commaList (fun c _ => sound_paramParser x c) hdepth' hparams
  rw [hfront.depth] at hn
  obtain ⟨s'', c₄, hclose, h⟩ := takes_of_expect (by simp) h
  rcases takes_of_eat (by simp) h with ⟨a, c₅, harrow, h⟩ | h
  · have hmiddle := hfront.trans (htakes.trans (hclose.trans harrow))
    obtain ⟨ret, us, m, c₆, hret, hd', hm, h⟩ := takes_of_sound sound_hint hmiddle h
    obtain ⟨rfl, d, hcolon⟩ := closed_eq_ok.1 h
    have hback := hclose.trans (harrow.trans (hret.trans hcolon))
    exact ⟨_, _, hfirst.trans (hname.trans (hopen.trans (htakes.trans hback))), .define hd hd', by omega⟩
  · cases h

end

/-- The span of a statement runs over the tokens that were taken. -/
theorem Parser.Sound.spanned {p : Parser StatementKind} {k : StatementKind} {s : Span} {c' : Cursor}
    (hp : Sound StatementKind.Derives p c) (h : spanned p c = .ok (k, s) c') :
    ∃ ts n, c.Takes ts c' ∧ k.Derives ts n ∧ c.depth + n ≤ maxNesting ∧ s = covering ts := by
  obtain ⟨hread, rfl⟩ := spanned_eq_ok.1 h
  obtain ⟨ts, n, htakes, hd, hn⟩ := hp k c' hread
  obtain ⟨t, us, rfl⟩ := List.exists_cons_of_ne_nil hd.ne_nil
  exact ⟨_, n, htakes, hd, hn, htakes.span_covering⟩

/-! ## Lines -/

namespace Line

variable {ts : List Token} {s : Statement}

/-- The tokens at the front derive a statement, and what is read next is behind the end of its line. -/
def Carries (ts : List Token) (s : Statement) (rest : List Token) : Prop :=
  ∃ own n us, ts = own ++ us ∧ s.kind.Derives own n ∧ n ≤ maxNesting ∧ s.span = covering own ∧ Past us rest

theorem Carries.intro {p : Parser StatementKind} {k : StatementKind} {span : Span} {c : Cursor} {rest : List Token}
    (hp : Sound StatementKind.Derives p (start ts)) (hread : spanned p (start ts) = .ok (k, span) c)
    (hrest : Past c.rest rest) (expectation : Option Expectation) : Carries ts ⟨k, span, expectation⟩ rest := by
  obtain ⟨own, n, htakes, hd, hn, hspan⟩ := hp.spanned hread
  exact ⟨own, n, c.rest, htakes.rest, hd, by omega, hspan, hrest⟩

theorem carries_ofStatement {p : Parser StatementKind} (hp : Sound StatementKind.Derives p (start ts))
    (h : s ∈ (ofStatement p ts).statement) : Carries ts s (ofStatement p ts).rest := by
  unfold ofStatement at h ⊢
  split at h
  · next hread =>
    cases h
    exact .intro hp hread (past_finish _) _
  · cases h

theorem carries_ofFunction (hk : (head ts).kind = .keyword .defWord) (h : s ∈ (ofFunction ts).statement) :
    Carries ts s (ofFunction ts).rest := by
  have hp : Sound StatementKind.Derives signatureParser (start ts) := sound_signatureParser (Nat.zero_le _) hk
  unfold ofFunction at h ⊢
  split at h
  · next hread =>
    split at h
    · next hinline =>
      cases h
      simp only [if_pos hinline]
      exact .intro hp hread (.of_took (sameLine_skipInline _) (past_finish _)) _
    · next hinline =>
      cases h
      simp only [if_neg hinline]
      exact .intro hp hread (past_finish _).skipBlock _
  · cases h

/-- A statement starts in the first column. -/
theorem carries_read (h : s ∈ (read ts).statement) : (head ts).span.startCol ≤ 1 ∧ Carries ts s (read ts).rest := by
  obtain ⟨hcol, ⟨hk, hread⟩ | ⟨p, hp, hread⟩⟩ := read_of_statement h
  · rw [hread] at h ⊢
    exact ⟨hcol, carries_ofFunction hk h⟩
  · rw [hread] at h ⊢
    refine ⟨hcol, carries_ofStatement ?_ h⟩
    simp only [lineParsers, List.mem_cons, List.not_mem_nil, or_false] at hp
    rcases hp with rfl | rfl | rfl
    · exact sound_declarationParser _
    · exact sound_assignmentParser _
    · exact sound_callStatementParser (Nat.zero_le _)

end Line

end AnnotationChecker
