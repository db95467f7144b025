import AnnotationChecker.Proofs.Hint.Layout
import AnnotationChecker.Proofs.Statement.Height
import AnnotationChecker.Proofs.Token.Kinds
/-!
# How the spans of a module are nested

Every statement starts in the first column and ends before the next one starts, and in a statement the spans of
statements, expressions and hints hold those of their parts (`Parsed.ofFile_nested`). A statement stands within the
tokens of its line (`Line.carries_read`), and the end of the line keeps it apart from those behind it.
-/

namespace AnnotationChecker

open AnnotationChecker.Parser

namespace StatementKind

/-- The spans of the parts of a statement. -/
def parts : StatementKind → List Span
  | .declare x h init => x.span :: h.span :: (init.map Expr.span).toList
  | .assign x value => [x.span, value.span]
  | .call f args => f.span :: args.map Expr.span
  | .define f params ret => f.span :: (params.flatMap (fun p => [p.name.span, p.hint.span]) ++ [ret.span])

/-- Everything inside of a statement is nested. -/
structure Nested (k : StatementKind) : Prop where
  exprs : ∀ e ∈ k.exprs, e.Nested
  hints : ∀ h ∈ k.hints, h.Nested

variable {ts : List Token} {k : StatementKind}

/-- A name and its annotation. -/
theorem laidOut_param {n : Nat} {x : Param} (h : Param.Derives ts n x) (hts : InOrder ts) :
    LaidOut ts [x.name.span, x.hint.span] ∧ x.hint.Nested := by
  obtain @⟨x, s, s', us, n, h, hd⟩ := h
  have hhint := hd.nested hts.tail.tail
  have hname : Span.IsIn [⟨.identifier x, s⟩] s := .head hts
  exact ⟨.cons hts hname (.single hhint.isIn), hhint.inside⟩

/-- The parts of a statement are laid out over its tokens, and everything inside of them is nested. -/
theorem Derives.laidOut {n : Nat} (h : k.Derives ts n) (hts : InOrder ts) : LaidOut ts k.parts ∧ k.Nested := by
  cases h with
  | @declare x s s' us n h hd =>
    have hname : Span.IsIn [⟨.identifier x, s⟩] s := .head hts
    have hhint := hd.nested hts.tail.tail
    exact ⟨.cons hts hname (.single hhint.isIn), by simp [exprs], by simpa [hints] using hhint.inside⟩
  | @init x s s' s'' us vs n m h e hd hd' =>
    have hname : Span.IsIn [⟨.identifier x, s⟩] s := .head hts
    have hrest := hts.tail.tail
    have hhint := hd.nested hrest.of_append_left
    have hvalue := hd'.nested hrest.of_append_right.tail
    have hparts : LaidOut (us ++ ⟨.mark .equals, s''⟩ :: vs) [h.span, e.span] :=
      .cons hrest hhint.isIn (.single hvalue.isIn)
    exact ⟨.cons hts hname hparts, by simpa [exprs] using hvalue.inside, by simpa [hints] using hhint.inside⟩
  | @assign x s s' us n e hd =>
    have hname : Span.IsIn [⟨.identifier x, s⟩] s := .head hts
    have hvalue := hd.nested hts.tail.tail
    exact ⟨.cons hts hname (.single hvalue.isIn), by simpa [exprs] using hvalue.inside, by simp [hints]⟩
  | @call x s s' s'' us n args hd =>
    have hname : Span.IsIn [⟨.identifier x, s⟩] s := .head hts
    have hinside : InOrder us :=
      hts.of_infix ⟨[⟨.identifier x, s⟩, ⟨.mark .leftParen, s'⟩], [⟨.mark .rightParen, s''⟩], by simp⟩
    obtain ⟨hargs, hnested⟩ := hd.laidOut hinside fun vs m e hvs _ hd => hd.nested (hinside.of_infix hvs)
    exact ⟨.cons hts hname (hargs.mono (List.subset_append_left us _)), hnested, by simp [hints]⟩
  | @define x s₀ s s' s'' a d us vs n m params ret hd hd' =>
    have hname : Span.IsIn [⟨.keyword .defWord, s₀⟩, ⟨.identifier x, s⟩] s :=
      .mono (.head hts.tail) (by simp)
    have hrest := hts.tail.tail.tail
    have hinside : InOrder us := hrest.of_append_left
    have hret := hd'.nested hrest.of_append_right.tail.tail.of_append_left
    have hparams := LaidOut.of_separated hd hinside fun ws l y hws _ hd => (laidOut_param hd (hinside.of_infix hws)).1
    have hback : LaidOut (⟨.mark .arrow, a⟩ :: (vs ++ [⟨.mark .colon, d⟩])) [ret.span] := .single (hret.isIn.mono (by simp))
    refine ⟨.cons hts hname (.append hrest hparams hback), by simp [exprs], ?_⟩
    have hnested : ∀ y ∈ params, y.hint.Nested := by
      intro y hy
      obtain ⟨ws, l, hws, -, hd⟩ := hd.exists_of_mem hy
      exact (laidOut_param hd (hinside.of_infix hws)).2
    simpa [hints, or_imp, forall_and] using ⟨hnested, hret.inside⟩

end StatementKind

/-! ## Modules -/

/-- A statement starts in the first column, its span holds those of its parts, and everything inside of these is
nested. -/
structure Statement.Nested (s : Statement) : Prop where
  startCol : s.span.startCol = 1
  parts : s.span.Holds s.kind.parts
  inside : s.kind.Nested

theorem Line.Carries.nested {ts rest : List Token} {s : Statement} (h : Carries ts s rest) (hts : InOrder ts)
    (hpos : ∀ t ∈ ts, 1 ≤ t.span.startCol) (hcol : (head ts).span.startCol ≤ 1) : s.Nested ∧ s.span.IsIn ts := by
  obtain ⟨own, _, us, rfl, hd, -, hspan, -⟩ := h
  have hne := hd.ne_nil
  have hown : InOrder own := hts.of_append_left
  obtain ⟨hlaid, hinside⟩ := hd.laidOut hown
  obtain ⟨t, ts, rfl⟩ := List.exists_cons_of_ne_nil hne
  have hfirst : s.span.first = t.span.first := by rw [hspan, first_covering hown]
  refine ⟨⟨?_, ?_, hinside⟩, ?_⟩
  · have hstart : s.span.startCol = t.span.startCol := congrArg Position.col hfirst
    rw [hstart]
    exact Nat.le_antisymm hcol (hpos t (by simp))
  · rw [hspan]
    exact hlaid.holds hown hne
  · rw [hspan]
    exact (isIn_covering hown hne).mono (List.subset_append_left _ us)

/-- Before the line is over, there is nothing of what is read behind it. -/
theorem Line.Carries.before {ts rest : List Token} {s : Statement} {span : Span} (h : Carries ts s rest) (hts : InOrder ts)
    (hrest : (head rest).kind ≠ .eof) (hspan : span.IsIn rest) : s.span.Before span := by
  obtain ⟨own, _, us, rfl, hd, -, hown, hpast⟩ := h
  obtain ⟨t, us, rfl, hsuffix⟩ := hpast.behind.resolve_left hrest
  rw [hown]
  exact (isIn_covering hts.of_append_left hd.ne_nil).before hts (hspan.mono hsuffix.subset)

namespace Parsed

variable {ts : List Token}

theorem ofLines_of_eof {room found : Nat} (h : (Line.head ts).kind = .eof) : ofLines room found ts = ⟨[], []⟩ := by
  have hopens : Opens ts := ⟨by simp [h], by simp [h, TokenKind.isComment], .inl h⟩
  exact ofLines_of_stop (.inl (by rw [Line.skipBlank_of_opens hopens, h]))

/-- Every statement stands within the tokens. -/
theorem nested_ofLines {room found : Nat} (heof : HasEof ts) (hts : InOrder ts) (hpos : ∀ t ∈ ts, 1 ≤ t.span.startCol) :
    ∀ s ∈ (ofLines room found ts).statements, s.Nested ∧ s.span.IsIn ts := by
  intro s hs
  obtain ⟨us, hus, -, hread⟩ := (exists_line heof).1 s hs
  obtain ⟨hcol, hcarries⟩ := Line.carries_read hread
  have hline := hcarries.nested (hts.of_infix hus.isInfix) (fun t ht => hpos t (hus.subset ht)) hcol
  exact ⟨hline.1, hline.2.mono hus.subset⟩

/-- Every statement ends before the next one starts. -/
theorem ordered_ofLines (room found : Nat) (heof : HasEof ts) (hts : InOrder ts) (hpos : ∀ t ∈ ts, 1 ≤ t.span.startCol) :
    (ofLines room found ts).statements.Pairwise fun s s' => s.span.Before s'.span := by
  induction room generalizing found ts with
  | zero => simp [ofLines]
  | succ room ih =>
    by_cases h : (Line.head (Line.skipBlank ts)).kind = .eof ∨ maxDiagnostics ≤ found
    · rw [ofLines_of_stop h]
      exact .nil
    · have hblank : HasEof (Line.skipBlank ts) := (Line.sameFile_skipBlank ts).hasEof heof
      have hread := (Line.advances_read (not_or.1 h).1 hblank.hasLineEnd).sameFile
      have hline := (Line.sameFile_skipBlank ts).suffix
      have hsuffix := hread.suffix.trans hline
      have hrest : InOrder (Line.read (Line.skipBlank ts)).rest := hts.of_infix hsuffix.isInfix
      have hposrest : ∀ t ∈ (Line.read (Line.skipBlank ts)).rest, 1 ≤ t.span.startCol :=
        fun t ht => hpos t (hsuffix.subset ht)
      have hend := hread.hasEof hblank
      rw [ofLines_succ h]
      refine List.pairwise_append.2 ⟨?_, ih _ hend hrest hposrest, fun s hs s' hs' => ?_⟩
      · cases (Line.read (Line.skipBlank ts)).statement <;> simp
      · obtain ⟨-, hcarries⟩ := Line.carries_read (Option.mem_toList.1 hs)
        refine hcarries.before (hts.of_infix hline.isInfix) (fun hstop => ?_) (nested_ofLines hend hrest hposrest s' hs').2
        rw [ofLines_of_eof hstop] at hs'
        cases hs'

/-- The statements of a file stand within its tokens. -/
theorem nested_ofFile (f : SourceFile) :
    (∀ s ∈ (ofFile f).statements, s.Nested ∧ s.span.IsIn (Lexed.ofFile f).tokens) ∧
      (ofFile f).statements.Pairwise fun s s' => s.span.Before s'.span := by
  have heof : HasEof (Lexed.ofFile f).tokens := Lexed.hasEof_ofPieces _ _ _
  have hpos : ∀ t ∈ (Lexed.ofFile f).tokens, 1 ≤ t.span.startCol := by
    intro t ht
    obtain ⟨before, -, -, -, -, hfirst⟩ := Lexed.reads_of_mem_tokens ht
    have hcol : t.span.startCol = (Position.start.after before).col := congrArg Position.col hfirst
    rw [hcol]
    exact Position.one_le_col_after (Nat.le_refl 1) before
  have hts := Lexed.inOrder_ofFile f
  exact ⟨nested_ofLines heof hts hpos, ordered_ofLines _ 0 heof hts hpos⟩

/-- **The spans of a module are nested and in order.** Every statement of a file starts in the first column and ends
before the next one starts. The span of a statement, and of every expression and hint inside of it, holds those of its
parts: it covers all of them, and each of them ends before the next one starts. -/
theorem ofFile_nested (f : SourceFile) :
    (∀ s ∈ (ofFile f).statements, s.Nested) ∧ (ofFile f).statements.Pairwise fun s s' => s.span.Before s'.span := by
  obtain ⟨hall, hordered⟩ := nested_ofFile f
  exact ⟨fun s hs => (hall s hs).1, hordered⟩

end Parsed

end AnnotationChecker
