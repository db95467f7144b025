import AnnotationChecker.Proofs.Hint.Height
import AnnotationChecker.Proofs.Statement.Grammar
/-!
# How high the trees of a module are

Every expression and every hint of a statement is derived by a stretch of the tokens within the nesting limit
(`Parsed.derived_ofLines`), so the limit bounds its height as far as levels do (`Parsed.ofTokens_height`).
-/

namespace AnnotationChecker

open AnnotationChecker.Parser

namespace StatementKind

/-- The expressions of a statement. A call that is a statement is no expression, but its arguments are. -/
def exprs : StatementKind → List Expr
  | .declare _ _ init => init.toList
  | .assign _ value => [value]
  | .call _ args => args
  | .define _ _ _ => []

/-- The hints of a statement. -/
def hints : StatementKind → List Hint
  | .declare _ hint _ => [hint]
  | .assign _ _ | .call _ _ => []
  | .define _ params ret => params.map Param.hint ++ [ret]

end StatementKind

/-- A stretch of the tokens derives the value, within the nesting limit. -/
def DerivedIn {α : Type} (L : Language α) (ts : List Token) (a : α) : Prop :=
  ∃ us n, us <:+: ts ∧ n ≤ maxNesting ∧ L us n a

theorem DerivedIn.mono {α : Type} {L : Language α} {ts us : List Token} {a : α} (h : DerivedIn L us a)
    (hus : us <:+: ts) : DerivedIn L ts a := by
  obtain ⟨vs, n, hvs, hn, hd⟩ := h
  exact ⟨vs, n, hvs.trans hus, hn, hd⟩

/-- Everything in a statement is derived by a stretch of the tokens, within the nesting limit. -/
structure StatementKind.DerivedFrom (ts : List Token) (k : StatementKind) : Prop where
  exprs : ∀ e ∈ k.exprs, DerivedIn Expr.Derives ts e
  hints : ∀ h ∈ k.hints, DerivedIn Hint.Derives ts h

theorem StatementKind.DerivedFrom.mono {ts us : List Token} {k : StatementKind} (h : k.DerivedFrom us)
    (hus : us <:+: ts) : k.DerivedFrom ts :=
  ⟨fun e he => (h.exprs e he).mono hus, fun x hx => (h.hints x hx).mono hus⟩

/-- What a statement is made of is derived by stretches of its tokens. -/
theorem StatementKind.Derives.derivedFrom {ts : List Token} {n : Nat} {k : StatementKind} (h : k.Derives ts n)
    (hn : n ≤ maxNesting) : k.DerivedFrom ts := by
  cases h with
  | @declare x s s' us n h hd =>
    have hhint : DerivedIn Hint.Derives us h := ⟨us, n, List.infix_rfl, hn, hd⟩
    exact ⟨by simp [exprs], by simpa [hints] using hhint.mono (infix_behind _ _ us)⟩
  | @init x s s' s'' us vs n m h e hd hd' =>
    obtain ⟨hn, hm⟩ := Nat.max_le.1 hn
    have hhint : DerivedIn Hint.Derives (us ++ ⟨.mark .equals, s''⟩ :: vs) h :=
      ⟨us, n, (List.prefix_append _ _).isInfix, hn, hd⟩
    have hvalue : DerivedIn Expr.Derives (us ++ ⟨.mark .equals, s''⟩ :: vs) e :=
      ⟨vs, m, ⟨us ++ [⟨.mark .equals, s''⟩], [], by simp⟩, hm, hd'⟩
    constructor
    · simpa [exprs] using hvalue.mono (infix_behind _ _ _)
    · simpa [hints] using hhint.mono (infix_behind _ _ _)
  | @assign x s s' us n e hd =>
    have hvalue : DerivedIn Expr.Derives us e := ⟨us, n, List.infix_rfl, hn, hd⟩
    exact ⟨by simpa [exprs] using hvalue.mono (infix_behind _ _ us), by simp [hints]⟩
  | @call x s s' s'' us n args hd =>
    refine ⟨fun e he => ?_, by simp [hints]⟩
    obtain ⟨vs, m, hvs, hm, hd⟩ := hd.exists_of_mem he
    have harg : DerivedIn Expr.Derives us e := ⟨vs, m, hvs, Nat.le_trans hm hn, hd⟩
    exact harg.mono ((List.prefix_append _ _).isInfix.trans (infix_behind _ _ _))
  | @define x s₀ s s' s'' a c us vs n m params ret hd hd' =>
    obtain ⟨hn, hm⟩ := Nat.max_le.1 hn
    refine ⟨by simp [exprs], fun h hh => ?_⟩
    rcases List.mem_append.1 hh with hh | hh
    · obtain ⟨x, hx, rfl⟩ := List.mem_map.1 hh
      obtain ⟨ws, l, hws, hl, hparam⟩ := hd.exists_of_mem hx
      obtain @⟨_, _, _, ws, l, h, hd⟩ := hparam
      have hhint : DerivedIn Hint.Derives us h := ⟨ws, l, (infix_behind _ _ ws).trans hws, Nat.le_trans hl hn, hd⟩
      exact hhint.mono ⟨[_, _, _], _, rfl⟩
    · rw [List.mem_singleton.1 hh]
      refine ⟨vs, m, ⟨⟨.keyword .defWord, s₀⟩ :: ⟨.identifier x, s⟩ :: ⟨.mark .leftParen, s'⟩ ::
        (us ++ [⟨.mark .rightParen, s''⟩, ⟨.mark .arrow, a⟩]), [⟨.mark .colon, c⟩], ?_⟩, hm, hd'⟩
      simp

namespace Parsed

variable {ts : List Token}

theorem derived_ofLines {room found : Nat} (hts : HasEof ts) :
    ∀ s ∈ (ofLines room found ts).statements, s.kind.DerivedFrom ts := by
  intro s hs
  obtain ⟨us, hus, -, hread⟩ := (exists_line hts).1 s hs
  obtain ⟨-, own, n, rest, rfl, hd, hn, -⟩ := Line.carries_read hread
  exact (hd.derivedFrom hn).mono ((List.prefix_append own rest).isInfix.trans hus.isInfix)

/-- **What the nesting limit bounds.** No expression of a module is higher than the limit. A hint can be higher, since
what stands in front of a `|` is not charged for the level that the `|` adds to it, but then some `|` stands behind a
bracket, and the sum of the levels bounds it all the same. -/
theorem ofTokens_height (hts : HasEof ts) : ∀ s ∈ (ofTokens ts).statements,
    (∀ e ∈ s.kind.exprs, e.height ≤ maxNesting) ∧
      ∀ h ∈ s.kind.hints, h.height ≤ Hint.triangular maxNesting ∧ (OpenBeforePipe ts → h.height ≤ maxNesting) := by
  intro s hs
  have hderived := derived_ofLines hts s hs
  constructor
  · intro e he
    obtain ⟨us, n, -, hn, hd⟩ := hderived.exprs e he
    exact Nat.le_trans hd.height_le hn
  · intro h hh
    obtain ⟨us, n, hus, hn, hd⟩ := hderived.hints h hh
    constructor
    · exact Nat.le_trans hd.height_le_triangular (Hint.triangular_le hn)
    · intro hopen
      exact Nat.le_trans (hd.height_le (hopen.mono hus)) hn

/-- A declaration of a hint. -/
def declaring (hint : List TokenKind) : List Token :=
  (.identifier "x" :: .mark .colon :: (hint ++ [.newline, .eof])).map fun k => ⟨k, .point 1 1⟩

/-- As many lists inside of each other as the limit allows. -/
def nestedLists : List TokenKind :=
  List.replicate maxNesting (.mark .leftBracket) ++ List.replicate maxNesting (.mark .rightBracket)

theorem ofTokens_height_lists :
    HasEof (declaring nestedLists) ∧ OpenBeforePipe (declaring nestedLists) ∧
      (ofTokens (declaring nestedLists)).statements.length = 1 ∧
      ∀ s ∈ (ofTokens (declaring nestedLists)).statements, ∀ h ∈ s.kind.hints, h.height ≤ maxNesting := by
  have heof : HasEof (declaring nestedLists) := ⟨⟨.eof, .point 1 1⟩, by decide +kernel, rfl⟩
  have hopen : OpenBeforePipe (declaring nestedLists) := by decide +kernel
  refine ⟨heof, hopen, by decide +kernel, ?_⟩
  intro s hs h hh
  exact ((ofTokens_height heof s hs).2 h hh).2 hopen

/-- With a further part behind the lists the hint is read all the same, and it is higher than the limit. -/
theorem exists_higher :
    (ofTokens (declaring (nestedLists ++ [.mark .pipe, .identifier "int"]))).issues = [] ∧
      ∃ s ∈ (ofTokens (declaring (nestedLists ++ [.mark .pipe, .identifier "int"]))).statements,
        ∃ h ∈ s.kind.hints, h.height = maxNesting + 1 := by
  decide +kernel

end Parsed

end AnnotationChecker
