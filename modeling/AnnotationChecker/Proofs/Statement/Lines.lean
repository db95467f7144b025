import AnnotationChecker.Proofs.Statement.InLine
/-!
# What follows a line does not change how it is read

Whole lines are read, dropped and skipped in the same way whatever opens behind them, and what stands behind is left
over as it is: every function on lines commutes with appending (`Line.read_append` is the one for a line). None of
them takes the end of the file, and reading a line takes a token (`Line.advances_read`).
-/

namespace AnnotationChecker

open AnnotationChecker.Parser

/-! ## Whole lines, and what may follow them -/

/-- The tokens of whole lines: there is no end of the file, and the last one ends its line. -/
structure WholeLines (ts : List Token) : Prop where
  noEof : ∀ t ∈ ts, t.kind ≠ .eof
  ended : ∀ t ∈ ts.getLast?, t.kind = .newline

/-- The tokens start a line that is neither blank nor indented, or they are at the end of the file. -/
structure Opens (ts : List Token) : Prop where
  notNewline : (Line.head ts).kind ≠ .newline
  notComment : (Line.head ts).kind.isComment = false
  notIndented : (Line.head ts).kind = .eof ∨ (Line.head ts).span.startCol ≤ 1

/-- The end of the file was not taken. -/
abbrev SameFile (ts rest : List Token) : Prop := Took (fun k => k ≠ .eof) ts rest

theorem SameFile.suffix {ts rest : List Token} (h : SameFile ts rest) : rest <:+ ts := by
  obtain ⟨taken, htaken, -⟩ := h
  exact ⟨taken, htaken.symm⟩

theorem SameLine.sameFile {ts rest : List Token} (h : SameLine ts rest) : SameFile ts rest :=
  h.mono fun k hk heof => by simp [heof, TokenKind.isLineEnd] at hk

namespace WholeLines

variable {t : Token} {ts rest : List Token} {P : TokenKind → Prop}

theorem of_took (h : WholeLines ts) (htook : Took P ts rest) : WholeLines rest := by
  obtain ⟨taken, rfl, -⟩ := htook
  constructor
  · exact fun t ht => h.noEof t (List.mem_append_right _ ht)
  · intro t ht
    have hlast : (taken ++ rest).getLast? = some t := by
      rw [List.getLast?_append, Option.mem_def.1 ht]
      rfl
    exact h.ended t hlast

theorem tail (h : WholeLines (t :: ts)) : WholeLines ts :=
  h.of_took (Took.cons (P := fun _ => True) trivial (.refl ts))

theorem tail_ne_nil (h : WholeLines (t :: ts)) (ht : t.kind ≠ .newline) : ts ≠ [] := by
  rintro rfl
  exact ht (h.ended t rfl)

theorem head_ne_eof (h : WholeLines ts) (hne : ts ≠ []) : (Line.head ts).kind ≠ .eof := by
  obtain ⟨t, us, rfl⟩ := List.exists_cons_of_ne_nil hne
  exact h.noEof t (by simp)

theorem hasLineEnd (h : WholeLines ts) (hne : ts ≠ []) : HasLineEnd ts := by
  refine ⟨ts.getLast hne, List.getLast_mem hne, ?_⟩
  rw [h.ended _ (List.getLast?_eq_some_getLast hne)]
  rfl

end WholeLines

namespace Line

variable {t : Token} {ts us x y : List Token}

@[simp] theorem head_cons : head (t :: ts) = t := rfl

theorem head_append (hne : x ≠ []) : head (x ++ y) = head x := by
  obtain ⟨t, us, rfl⟩ := List.exists_cons_of_ne_nil hne
  rfl

theorem endsHere_append (hne : x ≠ []) : endsHere (x ++ y) = endsHere x := by
  rw [endsHere, head_append hne, endsHere]

/-! ## Dropping and skipping -/

theorem drop_append (hx : WholeLines x) (hne : x ≠ []) : drop (x ++ y) = drop x ++ y := by
  induction x with
  | nil => exact absurd rfl hne
  | cons t us ih =>
    have heof : t.kind ≠ .eof := hx.noEof t (by simp)
    rw [List.cons_append, drop, drop, if_neg heof, if_neg heof]
    by_cases hnl : t.kind = .newline
    · rw [if_pos hnl, if_pos hnl]
    · rw [if_neg hnl, if_neg hnl, ih hx.tail (hx.tail_ne_nil hnl)]

theorem sameFile_drop (ts : List Token) : SameFile ts (drop ts) := by
  induction ts with
  | nil => exact .refl _
  | cons t ts ih =>
    rw [drop]
    split
    · exact .refl _
    · next heof =>
      split
      · exact .cons heof (.refl _)
      · exact .cons heof ih

theorem length_drop_lt (h : (head ts).kind ≠ .eof) : (drop ts).length < ts.length := by
  cases ts with
  | nil => exact absurd rfl h
  | cons t ts =>
    rw [head_cons] at h
    rw [drop, if_neg h]
    split
    · exact Nat.lt_succ_self _
    · exact Nat.lt_succ_of_le (length_drop_le ts)

theorem skipBlank_of_opens (hy : Opens y) : skipBlank y = y := by
  cases y with
  | nil => rfl
  | cons t ts =>
    have hc : t.kind.isComment = false := hy.notComment
    rw [skipBlank, if_neg]
    rintro (hnl | ⟨hcomment, -⟩)
    · exact hy.notNewline hnl
    · rw [hc] at hcomment
      cases hcomment

theorem skipBlank_append (hx : WholeLines x) (hy : Opens y) : skipBlank (x ++ y) = skipBlank x ++ y := by
  induction x with
  | nil => exact skipBlank_of_opens hy
  | cons t us ih =>
    by_cases hnl : t.kind = .newline
    · simp only [List.cons_append, skipBlank, hnl, true_or, if_true, ih hx.tail]
    · have hends : endsHere (us ++ y) = endsHere us := endsHere_append (hx.tail_ne_nil hnl)
      rw [List.cons_append, skipBlank, skipBlank, hends]
      split
      · exact ih hx.tail
      · rfl

theorem sameFile_skipBlank (ts : List Token) : SameFile ts (skipBlank ts) := by
  induction ts with
  | nil => exact .refl _
  | cons t ts ih =>
    rw [skipBlank]
    split
    · next h =>
      refine .cons ?_ ih
      rcases h with h | ⟨h, -⟩ <;> intro heof
      · rw [h] at heof
        cases heof
      · rw [heof] at h
        cases h
    · exact .refl _

theorem skipBlock_of_opens (hy : Opens y) : skipBlock y = (0, y) := by
  cases y with
  | nil => rw [skipBlock]
  | cons t ts =>
    have hnl : t.kind ≠ .newline := hy.notNewline
    have hc : t.kind.isComment = false := hy.notComment
    rw [skipBlock, if_neg hnl]
    rcases hy.notIndented with heof | hcol
    · exact if_pos heof
    · have hcol' : ¬ 1 < t.span.startCol := Nat.not_lt.2 hcol
      simp only [hc, Bool.false_eq_true, false_and, if_false, hcol', ite_self]

theorem skipBlock_append (hx : WholeLines x) (hy : Opens y) :
    skipBlock (x ++ y) = ((skipBlock x).1, (skipBlock x).2 ++ y) := by
  fun_induction skipBlock x with
  | case1 => exact skipBlock_of_opens hy
  | case2 t ts hnl ih => rw [List.cons_append, skipBlock, if_pos hnl, ih hx.tail]
  | case3 t ts hnl heof => exact absurd heof (hx.noEof t (by simp))
  | case4 t ts hnl heof hcomment ih =>
    have hne : ts ≠ [] := hx.tail_ne_nil hnl
    rw [List.cons_append, skipBlock, if_neg hnl, if_neg heof, endsHere_append hne, if_pos hcomment,
      drop_append hx.tail hne, ih (hx.tail.of_took (sameFile_drop ts))]
  | case5 t ts hnl heof hcomment hcol block ih =>
    have hne : ts ≠ [] := hx.tail_ne_nil hnl
    rw [List.cons_append, skipBlock, if_neg hnl, if_neg heof, endsHere_append hne, if_neg hcomment, if_pos hcol,
      drop_append hx.tail hne, ih (hx.tail.of_took (sameFile_drop ts))]
  | case6 t ts hnl heof hcomment hcol =>
    rw [List.cons_append, skipBlock, if_neg hnl, if_neg heof, endsHere_append (hx.tail_ne_nil hnl), if_neg hcomment,
      if_neg hcol]

theorem sameFile_skipBlock (ts : List Token) : SameFile ts (skipBlock ts).2 := by
  fun_induction skipBlock ts with
  | case1 => exact .refl _
  | case2 t ts hnl ih => exact .cons (by simp [hnl]) ih
  | case3 t ts hnl heof => exact .refl _
  | case4 t ts hnl heof hcomment ih => exact .cons heof ((sameFile_drop ts).trans ih)
  | case5 t ts hnl heof hcomment hcol block ih => exact .cons heof ((sameFile_drop ts).trans ih)
  | case6 t ts hnl heof hcomment hcol => exact .refl _

theorem skipInline_append (hx : HasLineEnd x) : skipInline (x ++ y) = skipInline x ++ y := by
  induction x with
  | nil => obtain ⟨t, ht, -⟩ := hx; cases ht
  | cons t us ih =>
    rw [List.cons_append, skipInline, skipInline]
    split
    · rfl
    · next h =>
      have hend : t.kind.isLineEnd = false := by simpa using (not_or.1 h).2
      exact ih (hx.of_cons hend)

theorem sameLine_skipInline (ts : List Token) : SameLine ts (skipInline ts) := by
  induction ts with
  | nil => exact .refl _
  | cons t ts ih =>
    rw [skipInline]
    split
    · exact .refl _
    · next h => exact .cons (by simpa using (not_or.1 h).2) ih

/-! ## Ending a line -/

/-- The same ending with further tokens behind it. -/
def Ending.extend (y : List Token) (e : Ending) : Ending := { e with rest := e.rest ++ y }

theorem close_append (expectation : Option Expectation) (hx : WholeLines x) (hne : x ≠ []) :
    close expectation (x ++ y) = (close expectation x).extend y := by
  obtain ⟨t, us, rfl⟩ := List.exists_cons_of_ne_nil hne
  have heof : t.kind ≠ .eof := hx.head_ne_eof hne
  have hdrop : drop (t :: (us ++ y)) = drop (t :: us) ++ y := drop_append hx hne
  by_cases hnl : t.kind = .newline
  · simp [close, hnl, Ending.extend]
  · simp [close, heof, hnl, hdrop, Ending.extend]

theorem finish_append (hx : WholeLines x) (hne : x ≠ []) : finish (x ++ y) = (finish x).extend y := by
  obtain ⟨t, us, rfl⟩ := List.exists_cons_of_ne_nil hne
  rw [finish, finish, head_append hne]
  split
  · next body hbody =>
    have hnl : t.kind ≠ .newline := by rw [head_cons] at hbody; simp [hbody]
    exact close_append _ hx.tail (hx.tail_ne_nil hnl)
  · exact close_append _ hx hne

/-- One token is taken where it is not the end of the file. -/
theorem sameFile_drop_one (h : (head ts).kind ≠ .eof) : SameFile ts (ts.drop 1) := by
  cases ts with
  | nil => exact .refl _
  | cons t ts => exact .cons h (.refl _)

theorem sameFile_close (expectation : Option Expectation) (ts : List Token) :
    SameFile ts (close expectation ts).rest := by
  unfold close
  simp only
  split
  · exact .refl _
  · next heof =>
    split
    · exact sameFile_drop_one heof
    · exact sameFile_drop ts

theorem sameFile_finish (ts : List Token) : SameFile ts (finish ts).rest := by
  unfold finish
  split
  · next body hbody => exact (sameFile_drop_one (by simp [hbody])).trans (sameFile_close _ _)
  · exact sameFile_close _ ts

theorem length_finish_lt (h : (head ts).kind ≠ .eof) : (finish ts).rest.length < ts.length := by
  have hone : (ts.drop 1).length < ts.length := by
    cases ts with
    | nil => exact absurd rfl h
    | cons t ts => exact Nat.lt_succ_self _
  unfold finish
  split
  · exact Nat.lt_of_le_of_lt (sameFile_close _ _).length_le hone
  · unfold close
    simp only [h, if_false]
    split
    · exact hone
    · exact length_drop_lt h

/-! ## Reading a line -/

/-- The same line with further tokens behind it. -/
def extend (y : List Token) (l : Line) : Line := { l with rest := l.rest ++ y }

/-- Where the reading of a line starts. -/
abbrev start (ts : List Token) : Cursor := ⟨ts, Span.point 1 1, 0⟩

/-- What stays in its line succeeds or fails in both cases alike, and stops within the line. -/
theorem exists_result {α : Type} {p : Parser α} (h : Alike y p p (start x)) :
    (∃ a c, p (start x) = .ok a c ∧ p (start (x ++ y)) = .ok a (c.extend y) ∧ SameLine x c.rest) ∨
      ∃ i c, p (start x) = .error i c ∧ p (start (x ++ y)) = .error i (c.extend y) ∧ SameLine x c.rest := by
  obtain ⟨hext, hsame⟩ := h
  cases hres : p (start x) with
  | ok a c => rw [hres] at hext hsame; exact .inl ⟨a, c, rfl, hext, hsame⟩
  | error i c => rw [hres] at hext hsame; exact .inr ⟨i, c, rfl, hext, hsame⟩

theorem withBlock_append (kind : StatementKind) (span : Span) {e : Ending} (he : WholeLines e.rest) (hy : Opens y) :
    withBlock kind span (e.extend y) = (withBlock kind span e).extend y := by
  simp only [withBlock, Ending.extend, skipBlock_append he hy]
  rfl

section Append

variable (hx : WholeLines x) (hne : x ≠ []) (hy : Opens y)

include hx hne

theorem rest_of_sameLine (h : SameLine x us) : WholeLines us ∧ us ≠ [] := by
  refine ⟨hx.of_took h, ?_⟩
  obtain ⟨t, rest, rfl⟩ := (h.hasLineEnd (hx.hasLineEnd hne)).exists_cons
  simp

theorem drop_of_sameLine (h : SameLine x us) : drop (us ++ y) = drop us ++ y := by
  obtain ⟨hus, husne⟩ := rest_of_sameLine hx hne h
  exact drop_append hus husne

theorem finish_of_sameLine (h : SameLine x us) : finish (us ++ y) = (finish us).extend y := by
  obtain ⟨hus, husne⟩ := rest_of_sameLine hx hne h
  exact finish_append hus husne

theorem hasInlineBody_append : hasInlineBody (x ++ y) = hasInlineBody x := by
  obtain ⟨t, us, rfl⟩ := List.exists_cons_of_ne_nil hne
  by_cases hnl : t.kind = .newline
  · simp [hasInlineBody, endsHere, hnl, TokenKind.isLineEnd]
  · have hends : endsHere (us ++ y) = endsHere us := endsHere_append (hx.tail_ne_nil hnl)
    simp only [hasInlineBody, List.cons_append, List.drop_succ_cons, List.drop_zero, hends]
    rfl

include hy

theorem brokenStatement_append (i : Issue) (c : Cursor) (hc : SameLine x c.rest) :
    brokenStatement i (c.extend y) = (brokenStatement i c).extend y := by
  have hblock := skipBlock_append ((hx.of_took hc).of_took (sameFile_drop _)) hy
  rw [brokenStatement, Cursor.extend, drop_of_sameLine hx hne hc, hblock]
  rfl

theorem ofStatement_append {p : Parser StatementKind} (hp : Whole false p) :
    ofStatement p (x ++ y) = (ofStatement p x).extend y := by
  have hc : HasLineEnd x := hx.hasLineEnd hne
  have halike : Alike y (spanned p) (spanned p) (start x) := Whole.alike (.spanned hp) hc nofun
  rcases exists_result halike with ⟨⟨kind, span⟩, c, h, h', hr⟩ | ⟨i, c, h, h', hr⟩
  · rw [ofStatement, ofStatement, h, h']
    show ended kind span (finish (c.rest ++ y)) = _
    rw [finish_of_sameLine hx hne hr]
    rfl
  · rw [ofStatement, ofStatement, h, h']
    exact brokenStatement_append hx hne hy i c hr

theorem ofFunction_append (hend : (head x).kind.isLineEnd = false) :
    ofFunction (x ++ y) = (ofFunction x).extend y := by
  have hc : HasLineEnd x := hx.hasLineEnd hne
  have halike : Alike y (spanned signatureParser) (spanned signatureParser) (start x) :=
    Whole.alike (.spanned composed_signatureParser) hc fun _ => hend
  rcases exists_result halike with ⟨⟨kind, span⟩, c, h, h', hr⟩ | ⟨i, c, h, h', hr⟩
  · obtain ⟨hw, hwne⟩ := rest_of_sameLine hx hne hr
    rw [ofFunction, ofFunction, h, h']
    simp only [Cursor.extend, hasInlineBody_append hw hwne]
    split
    · -- the body stands on the line
      have hskip : SameLine x (skipInline c.rest) := hr.trans (sameLine_skipInline c.rest)
      rw [skipInline_append (hw.hasLineEnd hwne), finish_of_sameLine hx hne hskip]
      rfl
    · rw [finish_of_sameLine hx hne hr, withBlock_append kind span (hw.of_took (sameFile_finish c.rest)) hy]
  · rw [ofFunction, ofFunction, h, h']
    exact brokenStatement_append hx hne hy i c hr

omit hy

theorem ofImport_append (hend : (head x).kind.isLineEnd = false) : ofImport (x ++ y) = (ofImport x).extend y := by
  have hc : HasLineEnd x := hx.hasLineEnd hne
  have halike : Alike y importParser importParser (start x) := Whole.alike composed_importParser hc fun _ => hend
  rcases exists_result halike with ⟨u, c, h, h', hr⟩ | ⟨i, c, h, h', hr⟩
  · rw [ofImport, ofImport, h, h']
    show bare (finish (c.rest ++ y)) = _
    rw [finish_of_sameLine hx hne hr]
    rfl
  · rw [ofImport, ofImport, h, h']
    rfl

theorem ofFrom_append (hend : (head x).kind.isLineEnd = false) : ofFrom (x ++ y) = (ofFrom x).extend y := by
  have hc : HasLineEnd x := hx.hasLineEnd hne
  have halike : Alike y fromParser fromParser (start x) := Whole.alike composed_fromParser hc fun _ => hend
  rcases exists_result halike with ⟨u, c, h, h', hr⟩ | ⟨i, c, h, h', hr⟩
  · rw [ofFrom, ofFrom, h, h']
    show bare (finish (c.rest ++ y)) = _
    rw [finish_of_sameLine hx hne hr]
    rfl
  · rw [ofFrom, ofFrom, h, h']
    show broken i (drop (c.rest ++ y)) = _
    rw [drop_of_sameLine hx hne hr]
    rfl

include hy

/-- What follows whole lines does not change how the first of them is read. -/
theorem read_append (hnl : (head x).kind ≠ .newline) : read (x ++ y) = (read x).extend y := by
  obtain ⟨t, us, rfl⟩ := List.exists_cons_of_ne_nil hne
  have husne : us ≠ [] := hx.tail_ne_nil hnl
  have hbroken : ∀ i, brokenStatement i (start (t :: us ++ y)) = (brokenStatement i (start (t :: us))).extend y :=
    fun i => brokenStatement_append hx hne hy i (start (t :: us)) (.refl _)
  have hsecond : head ((t :: us ++ y).drop 1) = head ((t :: us).drop 1) := head_append husne
  unfold read
  simp only [head_append hne, hsecond]
  split
  · rw [drop_append hx hne]
    rfl
  · split
    next hk => exact ofImport_append hx hne (by rw [hk]; rfl)
    next hk => exact ofFrom_append hx hne (by rw [hk]; rfl)
    next =>
      show bare (finish (us ++ y)) = _
      rw [finish_append hx.tail husne]
      rfl
    next hk => exact ofFunction_append hx hne hy (by rw [hk]; rfl)
    next => exact ofStatement_append hx hne hy composed_declarationParser
    next => exact ofStatement_append hx hne hy composed_assignmentParser
    next => exact ofStatement_append hx hne hy composed_callStatementParser
    next => exact hbroken _

end Append

/-! ## A line takes tokens -/

/-- Tokens were taken, but not the end of the file. -/
structure Advances (ts rest : List Token) : Prop where
  sameFile : SameFile ts rest
  length_lt : rest.length < ts.length

theorem Advances.trans {vs : List Token} (h : Advances ts us) (h' : SameFile us vs) : Advances ts vs :=
  ⟨h.sameFile.trans h', Nat.lt_of_le_of_lt h'.length_le h.length_lt⟩

section Advances

variable (heof : (head ts).kind ≠ .eof)

include heof

/-- What takes a token wherever it can does so, too, when a parser stopped within the line before it. -/
theorem advances_of_sameLine {f : List Token → List Token} (h : SameLine ts us) (hf : ∀ vs, SameFile vs (f vs))
    (hlt : ∀ vs, (head vs).kind ≠ .eof → (f vs).length < vs.length) : Advances ts (f us) := by
  refine ⟨h.sameFile.trans (hf us), ?_⟩
  obtain ⟨taken, rfl, -⟩ := h
  cases taken with
  | nil => exact hlt us heof
  | cons t taken =>
    have hle := (hf us).length_le
    simp only [List.cons_append, List.length_cons, List.length_append]
    omega

theorem advances_drop (h : SameLine ts us) : Advances ts (drop us) :=
  advances_of_sameLine heof h sameFile_drop fun _ => length_drop_lt

theorem advances_finish (h : SameLine ts us) : Advances ts (finish us).rest :=
  advances_of_sameLine heof h sameFile_finish fun _ => length_finish_lt

theorem advances_brokenStatement (i : Issue) {c : Cursor} (h : SameLine ts c.rest) :
    Advances ts (brokenStatement i c).rest :=
  (advances_drop heof h).trans (sameFile_skipBlock _)

variable (hts : HasLineEnd ts)

include hts

theorem advances_ofStatement {p : Parser StatementKind} (hp : Whole false p) : Advances ts (ofStatement p ts).rest := by
  have halike : Alike [] (spanned p) (spanned p) (start ts) := Whole.alike (.spanned hp) hts nofun
  rcases exists_result halike with ⟨⟨kind, span⟩, c, h, -, hr⟩ | ⟨i, c, h, -, hr⟩
  · rw [ofStatement, h]
    exact advances_finish heof hr
  · rw [ofStatement, h]
    exact advances_brokenStatement heof i hr

variable (hend : (head ts).kind.isLineEnd = false)

include hend

theorem advances_ofFunction : Advances ts (ofFunction ts).rest := by
  have halike : Alike [] (spanned signatureParser) (spanned signatureParser) (start ts) :=
    Whole.alike (.spanned composed_signatureParser) hts fun _ => hend
  rcases exists_result halike with ⟨⟨kind, span⟩, c, h, -, hr⟩ | ⟨i, c, h, -, hr⟩
  · rw [ofFunction, h]
    simp only
    split
    · exact advances_finish heof (hr.trans (sameLine_skipInline c.rest))
    · exact (advances_finish heof hr).trans (sameFile_skipBlock _)
  · rw [ofFunction, h]
    exact advances_brokenStatement heof i hr

/-- Where an import is wrong its line is not dropped, but the word it starts with was taken. -/
theorem advances_ofImport : Advances ts (ofImport ts).rest := by
  have halike : Alike [] importParser importParser (start ts) := Whole.alike composed_importParser hts fun _ => hend
  rcases exists_result halike with ⟨u, c, h, -, hr⟩ | ⟨i, c, h, -, hr⟩
  · rw [ofImport, h]
    exact advances_finish heof hr
  · rw [ofImport, h]
    refine ⟨hr.sameFile, ?_⟩
    have hafter : HasLineEnd (start ts).advance.rest :=
      SameLine.hasLineEnd (Cursor.sameLine_advance (c := start ts) hend) hts
    have hnames := (InLine.importNames .dottedName [] (start ts).advance hafter).sameLine
    have h' : importNames dottedName (start ts).advance = .error i c := h
    rw [h'] at hnames
    exact Nat.lt_of_le_of_lt hnames.length_le (Cursor.length_advance_lt (c := start ts) hts)

theorem advances_ofFrom : Advances ts (ofFrom ts).rest := by
  have halike : Alike [] fromParser fromParser (start ts) := Whole.alike composed_fromParser hts fun _ => hend
  rcases exists_result halike with ⟨u, c, h, -, hr⟩ | ⟨i, c, h, -, hr⟩
  · rw [ofFrom, h]
    exact advances_finish heof hr
  · rw [ofFrom, h]
    exact advances_drop heof hr

omit hend

/-- Reading a line takes a token, and never the end of the file. -/
theorem advances_read : Advances ts (read ts).rest := by
  unfold read
  simp only
  split
  · exact advances_drop heof (.refl _)
  · split
    next hk => exact advances_ofImport heof hts (by rw [hk]; rfl)
    next hk => exact advances_ofFrom heof hts (by rw [hk]; rfl)
    next hk =>
      obtain ⟨t, us, rfl⟩ := hts.exists_cons
      have hend : t.kind.isLineEnd = false := by rw [head_cons] at hk; rw [hk]; rfl
      exact advances_finish heof (.cons hend (.refl us))
    next hk => exact advances_ofFunction heof hts (by rw [hk]; rfl)
    next => exact advances_ofStatement heof hts composed_declarationParser
    next => exact advances_ofStatement heof hts composed_assignmentParser
    next => exact advances_ofStatement heof hts composed_callStatementParser
    next => exact advances_brokenStatement heof _ (.refl _)

end Advances

/-! ## Lines that carry a statement -/

/-- The parsers of the statements that take a single line. -/
def lineParsers : List (Parser StatementKind) := [declarationParser, assignmentParser, callStatementParser]

/-- A line that carries a statement starts in the first column, and is that of a function or of another statement. -/
theorem read_of_statement {ts : List Token} {s : Statement} (h : s ∈ (read ts).statement) :
    (head ts).span.startCol ≤ 1 ∧ (((head ts).kind = .keyword .defWord ∧ read ts = ofFunction ts) ∨
      ∃ p ∈ lineParsers, read ts = ofStatement p ts) := by
  have hnone {l : Line} {P : Prop} (hl : l.statement = none) (h : s ∈ l.statement) : P := by
    rw [hl] at h
    cases h
  unfold read at h ⊢
  simp only at h ⊢
  split at h
  · cases h
  · next hcol =>
    rw [if_neg hcol]
    refine ⟨Nat.not_lt.1 hcol, ?_⟩
    split at h
    · refine hnone ?_ h
      unfold ofImport
      split <;> rfl
    · refine hnone ?_ h
      unfold ofFrom
      split <;> rfl
    · exact hnone rfl h
    · next hk => exact .inl ⟨hk, rfl⟩
    · exact .inr ⟨declarationParser, by simp [lineParsers], rfl⟩
    · exact .inr ⟨assignmentParser, by simp [lineParsers], rfl⟩
    · exact .inr ⟨callStatementParser, by simp [lineParsers], rfl⟩
    · exact hnone rfl h

end Line

end AnnotationChecker
