import AnnotationChecker.Proofs.Statement.LineEnds
import AnnotationChecker.Proofs.Token.Derivation
/-!
# The body of a function does not matter

The lines below the header of a function are skipped as a whole (`Line.skipBlock_body`), whether the header can be read or
not. So all that the reading of a function depends on is its header, as long as there is a body (`Line.exists_ofFunction`),
and a module with another body in its place reads the same (`Parsed.ofTokens_congr_body`).
-/

namespace AnnotationChecker

open AnnotationChecker.Parser

/-! ## Headers and bodies -/

/-- One logical line: its only newline is its last token. -/
def IsLine (ts : List Token) : Prop :=
  ∃ own t, ts = own ++ [t] ∧ t.kind = .newline ∧ ∀ u ∈ own, u.kind.isLineEnd = false

/-- The logical lines of some tokens, each without its newline. -/
def logicalLines (ts : List Token) : List (List Token) := ts.splitOnP fun t => t.kind = .newline

/-- A line that holds nothing, or nothing but a comment. -/
def IsBlankLine (line : List Token) : Prop := line = [] ∨ ∃ t, line = [t] ∧ t.kind.isComment = true

instance : DecidablePred IsBlankLine
  | [] => isTrue (.inl rfl)
  | [t] => decidable_of_iff (t.kind.isComment = true) (by simp [IsBlankLine])
  | _ :: _ :: _ => isFalse (by simp [IsBlankLine])

/-- Does a body stand on the line of a signature? There is none behind a signature that cannot be read. -/
def holdsInlineBody (ts : List Token) : Bool :=
  match signatureParser (Line.start ts) with
  | .ok _ c => Line.hasInlineBody c.rest
  | .error _ _ => false

/-- The line that starts a function: a `def` in the first column, and no body on the line itself. -/
structure IsHeader (ts : List Token) : Prop where
  line : IsLine ts
  keyword : (Line.head ts).kind = .keyword .defWord
  column : (Line.head ts).span.startCol = 1
  noInlineBody : holdsInlineBody ts = false

/-- Lines below a header: but for blank ones they are indented, and one at least is not blank. Only at the end of the file
the last one needs no newline. -/
structure IsBody (behind ts : List Token) : Prop where
  noEof : ∀ t ∈ ts, t.kind ≠ .eof
  ended : (∀ t ∈ ts.getLast?, t.kind = .newline) ∨ (Line.head behind).kind = .eof
  indented : ∀ line ∈ logicalLines ts, IsBlankLine line ∨ 1 < (Line.head line).span.startCol
  nonblank : ∃ line ∈ logicalLines ts, ¬ IsBlankLine line

/-! ## Lines -/

/-- Induction over the logical lines of some tokens, from the front. -/
@[elab_as_elim]
theorem linesInduction {P : List Token → Prop} (last : ∀ own, (∀ u ∈ own, u.kind ≠ .newline) → P own)
    (line : ∀ own t rest, (∀ u ∈ own, u.kind ≠ .newline) → t.kind = .newline → P rest → P (own ++ t :: rest))
    (ts : List Token) : P ts := by
  induction hn : ts.length using Nat.strongRecOn generalizing ts with
  | _ n ih =>
    cases hfind : ts.find? fun t => t.kind = .newline with
    | none => exact last ts (by simpa using hfind)
    | some t =>
      obtain ⟨ht, own, rest, rfl, hown⟩ := List.find?_eq_some_iff_append.1 hfind
      refine line own t rest (by simpa using hown) (by simpa using ht) (ih _ ?_ rest rfl)
      rw [← hn, List.length_append, List.length_cons]
      omega

section

variable {own : List Token} (hown : ∀ u ∈ own, u.kind ≠ .newline)

include hown

theorem logicalLines_own : logicalLines own = [own] :=
  List.splitOnP_eq_singleton fun u hu => by simpa using hown u hu

theorem logicalLines_line {t : Token} (ht : t.kind = .newline) (rest : List Token) :
    logicalLines (own ++ t :: rest) = own :: logicalLines rest := by
  rw [logicalLines, List.splitOnP_append_cons own rest (by simpa using ht)]
  exact congrArg (· ++ logicalLines rest) (logicalLines_own hown)

end

namespace IsLine

variable {ts us : List Token}

theorem whole (h : IsLine ts) : WholeLines ts := by
  obtain ⟨own, t, rfl, ht, hown⟩ := h
  constructor
  · intro u hu heof
    rcases List.mem_append.1 hu with hu | hu
    · have hend := hown u hu
      rw [heof] at hend
      cases hend
    · rw [List.mem_singleton.1 hu, ht] at heof
      cases heof
  · simpa using ht

theorem ne_nil (h : IsLine ts) : ts ≠ [] := by
  obtain ⟨own, t, rfl, -⟩ := h
  simp

/-- What is left of a line is one. -/
theorem of_sameLine (h : IsLine ts) (hs : SameLine ts us) : IsLine us := by
  obtain ⟨own, t, rfl, ht, hown⟩ := h
  obtain ⟨taken, heq, htaken⟩ := hs
  rcases List.append_eq_append_iff.1 heq with ⟨as, rfl, has⟩ | ⟨bs, rfl, rfl⟩
  · cases as with
    | nil => exact ⟨[], t, by simpa using has.symm, ht, by simp⟩
    | cons a as =>
      -- the newline would have been taken
      obtain ⟨rfl, -⟩ := List.cons.inj has
      have hend := htaken t (by simp)
      rw [ht] at hend
      cases hend
  · exact ⟨bs, t, rfl, ht, fun u hu => hown u (List.mem_append_right _ hu)⟩

end IsLine

namespace Line

variable {ts own y behind : List Token}

theorem isLineEnd_eq_false {k : TokenKind} (hnl : k ≠ .newline) (heof : k ≠ .eof) : k.isLineEnd = false := by
  cases k <;> first | rfl | contradiction

theorem drop_own (hown : ∀ u ∈ own, u.kind.isLineEnd = false) (y : List Token) : drop (own ++ y) = drop y := by
  induction own with
  | nil => rfl
  | cons u us ih =>
    obtain ⟨hu, hus⟩ := List.forall_mem_cons.1 hown
    have heof : u.kind ≠ .eof := fun h => by simp [h, TokenKind.isLineEnd] at hu
    have hnl : u.kind ≠ .newline := fun h => by simp [h, TokenKind.isLineEnd] at hu
    rw [List.cons_append, drop, if_neg heof, if_neg hnl, ih hus]

/-- Dropping a line leaves what is behind it. -/
theorem drop_of_isLine (h : IsLine ts) (y : List Token) : drop (ts ++ y) = y := by
  obtain ⟨own, t, rfl, ht, hown⟩ := h
  rw [List.append_assoc, drop_own hown, List.singleton_append, drop, if_neg (by simp [ht]), if_pos ht]

/-- Ending a line takes all of it. -/
theorem rest_finish (h : IsLine ts) : (finish ts).rest = [] := by
  have hclose : ∀ {us} expectation, IsLine us → (close expectation us).rest = [] := by
    intro us expectation hus
    obtain ⟨t, vs, rfl⟩ := List.exists_cons_of_ne_nil hus.ne_nil
    have heof : t.kind ≠ .eof := hus.whole.noEof t (by simp)
    have hdrop := drop_of_isLine hus []
    rw [List.append_nil] at hdrop
    by_cases hnl : t.kind = .newline
    · simpa [close, hnl, drop] using hdrop
    · simpa [close, heof, hnl] using hdrop
  unfold finish
  split
  · next body hbody =>
    obtain ⟨t, us, rfl⟩ := List.exists_cons_of_ne_nil h.ne_nil
    have hend : t.kind.isLineEnd = false := by rw [head_cons] at hbody; rw [hbody]; rfl
    exact hclose _ (h.of_sameLine (.cons hend (.refl us)))
  · exact hclose _ h

theorem finish_of_isLine (h : IsLine ts) (y : List Token) : finish (ts ++ y) = { finish ts with rest := y } := by
  rw [finish_append h.whole h.ne_nil, Ending.extend, rest_finish h, List.nil_append]

/-! ## Skipping a body -/

/-- A blank line of a body is skipped. -/
theorem skipBlock_of_isBlankLine (hown : IsBlankLine own) (hy : endsHere y = true) :
    skipBlock (own ++ y) = skipBlock (drop y) := by
  rcases hown with rfl | ⟨t, rfl, ht⟩
  · cases y with
    | nil => rfl
    | cons u us =>
      rcases endsHere_iff.1 hy with hnl | heof
      · rw [head_cons] at hnl
        rw [List.nil_append, skipBlock, if_pos hnl, drop, if_neg (by simp [hnl]), if_pos hnl]
      · rw [head_cons] at heof
        rw [List.nil_append, drop, if_pos heof]
  · have heof : t.kind ≠ .eof := fun h => by simp [h, TokenKind.isComment] at ht
    have hnl : t.kind ≠ .newline := fun h => by simp [h, TokenKind.isComment] at ht
    rw [List.singleton_append, skipBlock, if_neg hnl, if_neg heof, if_pos ⟨ht, hy⟩]

/-- Another one is counted as well. -/
theorem skipBlock_of_indented (hown : ∀ u ∈ own, u.kind.isLineEnd = false) (hblank : ¬ IsBlankLine own)
    (hcol : 1 < (head own).span.startCol) (y : List Token) :
    skipBlock (own ++ y) = ((skipBlock (drop y)).1 + 1, (skipBlock (drop y)).2) := by
  obtain ⟨u, us, rfl⟩ := List.exists_cons_of_ne_nil fun h => hblank (.inl h)
  rw [head_cons] at hcol
  obtain ⟨hu, hus⟩ := List.forall_mem_cons.1 hown
  have heof : u.kind ≠ .eof := fun h => by simp [h, TokenKind.isLineEnd] at hu
  have hnl : u.kind ≠ .newline := fun h => by simp [h, TokenKind.isLineEnd] at hu
  -- a comment with more behind it on its line does not make the line blank
  have hcomment : ¬ (u.kind.isComment = true ∧ endsHere (us ++ y) = true) := by
    rintro ⟨hc, hends⟩
    cases us with
    | nil => exact hblank (.inr ⟨u, rfl, hc⟩)
    | cons v vs =>
      have hv : v.kind.isLineEnd = false := hus v (by simp)
      rw [List.cons_append, endsHere, head_cons, hv] at hends
      cases hends
  rw [List.cons_append, skipBlock, if_neg hnl, if_neg heof, if_neg hcomment, if_pos hcol, drop_own hus]

/-- Skipping a line goes on with the lines behind it, and it is counted unless it is blank. -/
theorem skipBlock_own (hown : ∀ u ∈ own, u.kind.isLineEnd = false)
    (hline : IsBlankLine own ∨ 1 < (head own).span.startCol) (hy : endsHere y = true) :
    (skipBlock (own ++ y)).2 = (skipBlock (drop y)).2 ∧ (skipBlock (drop y)).1 ≤ (skipBlock (own ++ y)).1 ∧
      (¬ IsBlankLine own → 0 < (skipBlock (own ++ y)).1) := by
  by_cases hblank : IsBlankLine own
  · rw [skipBlock_of_isBlankLine hblank hy]
    exact ⟨rfl, Nat.le_refl _, fun h => absurd hblank h⟩
  · rw [skipBlock_of_indented hown hblank (hline.resolve_left hblank)]
    exact ⟨rfl, Nat.le_succ _, fun _ => Nat.succ_pos _⟩

/-- Skipping indented lines leaves what is behind them, and counts them unless all of them are blank. -/
theorem skipBlock_indented (hback : Opens behind) (hfile : ∀ t ∈ ts, t.kind ≠ .eof)
    (hended : (∀ t ∈ ts.getLast?, t.kind = .newline) ∨ (head behind).kind = .eof)
    (hindented : ∀ line ∈ logicalLines ts, IsBlankLine line ∨ 1 < (head line).span.startCol) :
    (skipBlock (ts ++ behind)).2 = behind ∧
      ((∃ line ∈ logicalLines ts, ¬ IsBlankLine line) → 0 < (skipBlock (ts ++ behind)).1) := by
  have hstop : skipBlock behind = (0, behind) := skipBlock_of_opens hback
  induction ts using linesInduction with
  | last own hnl =>
    rw [logicalLines_own hnl] at hindented ⊢
    simp only [List.mem_singleton, forall_eq, exists_eq_left] at hindented ⊢
    by_cases hnil : own = []
    · subst hnil
      rw [List.nil_append, hstop]
      exact ⟨rfl, fun h => absurd (.inl rfl) h⟩
    · -- a line without its newline is the last one of the file
      have hlast : ¬ ∀ t ∈ own.getLast?, t.kind = .newline := fun h =>
        hnl _ (List.getLast_mem hnil) (h _ (List.getLast?_eq_some_getLast hnil))
      have heof : (head behind).kind = .eof := hended.resolve_left hlast
      have hdrop : drop behind = behind := by
        cases behind with
        | nil => rfl
        | cons t us => exact if_pos heof
      have hown : ∀ t ∈ own, t.kind.isLineEnd = false := fun t ht => isLineEnd_eq_false (hnl t ht) (hfile t ht)
      obtain ⟨hrest, -, hcount⟩ := skipBlock_own hown hindented (endsHere_iff.2 (.inr heof))
      rw [hdrop, hstop] at hrest
      exact ⟨hrest, hcount⟩
  | line own t rest hnl ht ih =>
    rw [logicalLines_line hnl ht] at hindented ⊢
    obtain ⟨hfirst, hrest⟩ := List.forall_mem_cons.1 hindented
    have hended' : (∀ t ∈ rest.getLast?, t.kind = .newline) ∨ (head behind).kind = .eof := by
      refine hended.imp_left fun h u hu => h u ?_
      rw [List.getLast?_append, List.getLast?_cons, Option.mem_def.1 hu]
      rfl
    obtain ⟨ih, ihcount⟩ := ih (fun u hu => hfile u (by simp [hu])) hended' hrest
    have hown : ∀ u ∈ own, u.kind.isLineEnd = false := fun u hu => isLineEnd_eq_false (hnl u hu) (hfile u (by simp [hu]))
    have hends : endsHere (t :: (rest ++ behind)) = true := endsHere_iff.2 (.inl ht)
    obtain ⟨hskip, hle, hcount⟩ := skipBlock_own hown hfirst hends
    rw [drop, if_neg (by simp [ht]), if_pos ht] at hskip hle
    rw [List.append_assoc, List.cons_append]
    refine ⟨hskip.trans ih, ?_⟩
    rintro ⟨line, hmem, hline⟩
    rcases List.mem_cons.1 hmem with rfl | hmem
    · exact hcount hline
    · exact Nat.lt_of_lt_of_le (ihcount ⟨line, hmem, hline⟩) hle

/-- A body is skipped, and nothing else. -/
theorem skipBlock_body (hback : Opens behind) (h : IsBody behind ts) :
    (skipBlock (ts ++ behind)).2 = behind ∧ 0 < (skipBlock (ts ++ behind)).1 := by
  obtain ⟨hrest, hcount⟩ := skipBlock_indented hback h.noEof h.ended h.indented
  exact ⟨hrest, hcount h.nonblank⟩

/-! ## Functions -/

/-- What is read of a function above a body is all in its header. -/
theorem exists_ofFunction (h : IsHeader ts) :
    ∃ l : Line, ∀ y, 0 < (skipBlock y).1 → ofFunction (ts ++ y) = { l with rest := (skipBlock y).2 } := by
  have hc : HasLineEnd ts := h.line.whole.hasLineEnd h.line.ne_nil
  have hend : (start ts).peek.kind.isLineEnd = false := by
    show (head ts).kind.isLineEnd = false
    rw [h.keyword]
    rfl
  have halike : ∀ y, Alike y (spanned signatureParser) (spanned signatureParser) (start ts) :=
    fun y => Whole.alike (.spanned composed_signatureParser) hc fun _ => hend
  have hsame := (halike []).sameLine
  have hextend : ∀ y, spanned signatureParser (start (ts ++ y)) = extended y (spanned signatureParser (start ts)) :=
    fun y => (halike y).extend
  cases hread : spanned signatureParser (start ts) with
  | ok a c =>
    obtain ⟨kind, span⟩ := a
    rw [hread] at hsame
    have hrest : IsLine c.rest := h.line.of_sameLine hsame
    have hinline : hasInlineBody c.rest = false := by
      have hline := h.noInlineBody
      rwa [holdsInlineBody, (spanned_eq_ok.1 hread).1] at hline
    refine ⟨ended kind span (finish c.rest), fun y hy => ?_⟩
    have hy' : (skipBlock y).1 ≠ 0 := Nat.pos_iff_ne_zero.1 hy
    have hread' : spanned signatureParser (start (ts ++ y)) = .ok (kind, span) (c.extend y) := by
      rw [hextend, hread]
      rfl
    rw [ofFunction, hread']
    simp only [Cursor.extend, hasInlineBody_append hrest.whole hrest.ne_nil, hinline, finish_of_isLine hrest, withBlock,
      hy', Bool.false_eq_true, if_false, List.append_nil]
    rfl
  | error i c =>
    rw [hread] at hsame
    have hrest : IsLine c.rest := h.line.of_sameLine hsame
    refine ⟨broken i [], fun y _ => ?_⟩
    have hread' : spanned signatureParser (start (ts ++ y)) = .error i (c.extend y) := by
      rw [hextend, hread]
      rfl
    rw [ofFunction, hread']
    simp only [brokenStatement, Cursor.extend, drop_of_isLine hrest]
    rfl

end Line

namespace IsHeader

variable {ts : List Token}

theorem opens (h : IsHeader ts) (y : List Token) : Opens (ts ++ y) where
  notNewline := by simp [Line.head_append h.line.ne_nil, h.keyword]
  notComment := by simp [Line.head_append h.line.ne_nil, h.keyword, TokenKind.isComment]
  notIndented := .inr (by simp [Line.head_append h.line.ne_nil, h.column])

theorem read_append (h : IsHeader ts) (y : List Token) : Line.read (ts ++ y) = Line.ofFunction (ts ++ y) := by
  have hcol : ¬ 1 < (Line.head ts).span.startCol := by simp [h.column]
  unfold Line.read
  simp only [Line.head_append h.line.ne_nil, if_neg hcol, h.keyword]

end IsHeader

/-! ## Modules -/

namespace Parsed

open Line

variable {front header block block' back : List Token}

/-- What is read from a header on does not depend on the body. -/
theorem exists_ofLines (hheader : IsHeader header) (hback : Opens back) (heof : HasEof back) :
    ∃ later : Nat → Parsed, ∀ block n found, IsBody back block → (header ++ (block ++ back)).length < n →
      ofLines n found (header ++ (block ++ back)) = later found := by
  obtain ⟨l, hl⟩ := exists_ofFunction hheader
  refine ⟨fun found => if maxDiagnostics ≤ found then ⟨[], []⟩
    else (ofLines (back.length + 1) (found + l.issues.length) back).after l, fun block n found hblock hn => ?_⟩
  obtain ⟨n, rfl⟩ : ∃ m, n = m + 1 := ⟨n - 1, by omega⟩
  have hopens : Opens (header ++ (block ++ back)) := hheader.opens _
  dsimp only
  split
  · next hfull => exact ofLines_of_stop (.inr hfull)
  · next hfew =>
    have hlt : back.length < n := by
      have hpos := List.length_pos_iff.2 hheader.line.ne_nil
      simp only [List.length_append] at hn
      omega
    obtain ⟨hrest, hcount⟩ := skipBlock_body hback hblock
    have hread : read (header ++ (block ++ back)) = { l with rest := back } := by
      rw [hheader.read_append, hl _ hcount, hrest]
    have hgo : ¬ ((head (header ++ (block ++ back))).kind = .eof ∨ maxDiagnostics ≤ found) := by
      rw [head_append hheader.line.ne_nil, hheader.keyword]
      simpa using hfew
    rw [ofLines_succ (by rwa [skipBlank_of_opens hopens]), skipBlank_of_opens hopens, hread,
      ofLines_congr_room heof hlt (Nat.lt_succ_self back.length)]
    rfl

/-- **Bodies do not matter.** A line that starts a function in the first column, without a body on the line itself, stands
behind any whole lines and above indented lines that are not all blank, and these end at the end of the file or in front
of a line that is neither blank nor indented. Whether the line can be read or not, other such lines in the place of the
indented ones change no statement, no span, no expectation and no issue. -/
theorem ofTokens_congr_body (hfront : WholeLines front) (hheader : IsHeader header) (hblock : IsBody back block)
    (hblock' : IsBody back block') (hback : Opens back) (heof : HasEof back) :
    ofTokens (front ++ (header ++ (block ++ back))) = ofTokens (front ++ (header ++ (block' ++ back))) := by
  obtain ⟨later, hlater⟩ := exists_ofLines hheader hback heof
  have hsplit : ∀ block, IsBody back block → ofTokens (front ++ (header ++ (block ++ back))) =
      ofLines (front.length + 1) 0 front ++ later (0 + (ofLines (front.length + 1) 0 front).issues.length) := by
    intro block hblock
    have hrest : HasEof (header ++ (block ++ back)) := by
      obtain ⟨t, ht, hk⟩ := heof
      exact ⟨t, by simp [ht], hk⟩
    rw [ofTokens, ofLines_append hfront (hheader.opens _) hrest (Nat.lt_succ_self _) (Nat.lt_succ_self _) (by simp),
      hlater block _ _ hblock (Nat.lt_succ_self _)]
  rw [hsplit block hblock, hsplit block' hblock']

/-- `x = 1` -/
def lineBefore : List Token :=
  [⟨.identifier "x", .point 1 1⟩, ⟨.mark .equals, .point 1 3⟩, ⟨.int 1, .point 1 5⟩, ⟨.newline, .point 1 6⟩]

/-- `def f() -> int:  # OK` -/
def signatureLine : List Token :=
  [⟨.keyword .defWord, ⟨2, 1, 2, 3⟩⟩, ⟨.identifier "f", .point 2 5⟩, ⟨.mark .leftParen, .point 2 6⟩,
    ⟨.mark .rightParen, .point 2 7⟩, ⟨.mark .arrow, ⟨2, 9, 2, 10⟩⟩, ⟨.identifier "int", ⟨2, 12, 2, 14⟩⟩,
    ⟨.mark .colon, .point 2 15⟩, ⟨.comment " OK", ⟨2, 18, 2, 21⟩⟩, ⟨.newline, .point 2 22⟩]

/-- `return x` -/
def returnBody : List Token :=
  [⟨.keyword .returnWord, ⟨3, 3, 3, 8⟩⟩, ⟨.identifier "x", .point 3 10⟩, ⟨.newline, .point 3 11⟩]

/-- A comment in the first column, a blank line, and `def ) # FAIL` without the end of its line. -/
def brokenBody : List Token :=
  [⟨.comment " no", ⟨3, 1, 3, 4⟩⟩, ⟨.newline, .point 3 5⟩, ⟨.newline, .point 4 1⟩,
    ⟨.keyword .defWord, ⟨5, 3, 5, 5⟩⟩, ⟨.mark .rightParen, .point 5 7⟩, ⟨.comment " FAIL", ⟨5, 9, 5, 14⟩⟩]

theorem ofTokens_congr_body_sample :
    let back : List Token := [⟨.eof, .point 6 1⟩]
    WholeLines lineBefore ∧ IsHeader signatureLine ∧ IsBody back returnBody ∧ IsBody back brokenBody ∧ Opens back ∧
      HasEof back ∧ ofTokens (lineBefore ++ (signatureLine ++ (returnBody ++ back))) =
        ofTokens (lineBefore ++ (signatureLine ++ (brokenBody ++ back))) := by
  intro back
  have hfront : WholeLines lineBefore := ⟨by decide, by decide⟩
  have hheader : IsHeader signatureLine :=
    ⟨⟨signatureLine.dropLast, ⟨.newline, .point 2 22⟩, rfl, rfl, by decide⟩, rfl, rfl, by decide +kernel⟩
  have hbody : IsBody back returnBody := ⟨by decide, .inl (by decide), by decide +kernel, by decide +kernel⟩
  have hbody' : IsBody back brokenBody := ⟨by decide, .inr rfl, by decide +kernel, by decide +kernel⟩
  have hback : Opens back := ⟨by decide, by decide, .inl rfl⟩
  have heof : HasEof back := ⟨_, List.mem_singleton_self _, rfl⟩
  exact ⟨hfront, hheader, hbody, hbody', hback, heof, ofTokens_congr_body hfront hheader hbody hbody' hback heof⟩

end Parsed

end AnnotationChecker
