import AnnotationChecker.Proofs.Diagnostic
import AnnotationChecker.Proofs.Token.LineEnd
import AnnotationChecker.Proofs.Token.Lexed
/-!
# Whole lines with a text behind them

When whole lines have no issue and leave no bracket open, a text behind them has the tokens and the issues that it has
by itself, further down (`Lexed.ofFile_append`). All that is carried over from the lines is how many they are.
-/

namespace AnnotationChecker

/-! ## Moving down -/

/-- The place `k` lines further down. -/
def Position.down (k : Nat) (p : Position) : Position := ⟨p.line + k, p.col⟩

def Span.down (k : Nat) (s : Span) : Span := ⟨s.startLine + k, s.startCol, s.endLine + k, s.endCol⟩

def Token.down (k : Nat) (t : Token) : Token := { t with span := t.span.down k }

def Issue.down (k : Nat) (i : Issue) : Issue := { i with span := i.span.down k }

/-- The source line stays what it is. -/
def Diagnostic.down (k : Nat) (d : Diagnostic) : Diagnostic := { d with span := d.span.down k }

def Diagnostics.down (k : Nat) (ds : Diagnostics) : Diagnostics := ⟨ds.stored.map (Diagnostic.down k), ds.total⟩

def Lexed.down (k : Nat) (l : Lexed) : Lexed := ⟨l.tokens.map (Token.down k), l.issues.map (Issue.down k)⟩

theorem Position.line_after (p : Position) (cs : List Char) : (p.after cs).line = p.line + cs.count '\n' := by
  induction cs generalizing p with
  | nil => rfl
  | cons c cs ih =>
    rw [after_cons, ih, List.count_cons, step]
    by_cases hc : c = '\n'
    · simp [hc, Nat.add_assoc, Nat.add_comm 1]
    · simp [hc]

/-- Behind a line end, the place is the first one of a line. -/
theorem Position.after_line (p : Position) (xs : List Char) :
    p.after (xs ++ ['\n']) = ⟨p.line + (xs ++ ['\n']).count '\n', 1⟩ := by
  rw [← line_after, after_append]
  rfl

theorem Position.after_down (k : Nat) (p : Position) (cs : List Char) : (p.down k).after cs = (p.after cs).down k := by
  induction cs generalizing p with
  | nil => rfl
  | cons c cs ih =>
    have hstep : (p.down k).step c = (p.step c).down k := by
      unfold step down
      split
      · simp [Nat.add_right_comm]
      · rfl
    rw [after_cons, after_cons, hstep, ih]

namespace Lexed

variable {p : Position} {found : Nat} {kind : TokenKind} {fault : Option TokenFault} {text : List Char} {ps : List Piece}

/-- A token and its fault, and what comes behind it unless the limit for issues is reached. -/
theorem ofPieces_token : ofPieces p found (⟨.token kind fault, text⟩ :: ps) =
    (if maxDiagnostics ≤ found + fault.toList.length then ending (p.after text)
      else ofPieces (p.after text) (found + fault.toList.length) ps).after
        [⟨kind, Span.between p (p.after text)⟩] (fault.toList.map (·.issue (Span.between p (p.after text)))) := by
  have hissues : (fault.map fun f => f.issue (Span.between p (p.after text))).toList =
      fault.toList.map (·.issue (Span.between p (p.after text))) := by cases fault <;> rfl
  rw [ofPieces]
  dsimp only
  rw [hissues, List.length_map]
  split <;> rfl

theorem after_down (k : Nat) (ts : List Token) (is : List Issue) (l : Lexed) :
    (l.after ts is).down k = (l.down k).after (ts.map (Token.down k)) (is.map (Issue.down k)) := by
  simp [down, after]

theorem ofPieces_down (k : Nat) (p : Position) (found : Nat) (ps : List Piece) :
    ofPieces (p.down k) found ps = (ofPieces p found ps).down k := by
  induction ps generalizing p found with
  | nil => rfl
  | cons piece ps ih =>
    obtain ⟨content, text⟩ := piece
    cases content with
    | blank => simp only [ofPieces, Position.after_down, ih]
    | stray c =>
      simp only [ofPieces, Position.after_down, ih]
      rfl
    | token kind fault =>
      rw [ofPieces_token, ofPieces_token, after_down, Position.after_down, ih, apply_ite (down k), List.map_map]
      rfl

end Lexed

/-! ## Whole lines -/

/-- The tokens of pieces that are read from a place on, whatever is wrong with them. -/
def Lexed.placed (p : Position) : List Piece → List Token
  | [] => []
  | piece :: rest =>
    let q := p.after piece.text
    match piece.content with
    | .token kind _ => ⟨kind, Span.between p q⟩ :: placed q rest
    | _ => placed q rest

/-- The number of brackets that tokens leave open, `depth` being open before. A closing bracket without a partner does
not count. -/
def Token.openBehind (depth : Nat) (ts : List Token) : Nat :=
  ts.foldl (fun d t => Piece.openAfter d (.token t.kind none)) depth

namespace Lexed

variable {p : Position} {found : Nat} {ps : List Piece}

theorem openBehind_placed (depth : Nat) (p : Position) (ps : List Piece) :
    Token.openBehind depth (placed p ps) = Piece.openBehind depth ps := by
  induction ps generalizing depth p with
  | nil => rfl
  | cons piece ps ih =>
    obtain ⟨content, text⟩ := piece
    cases content with
    | blank | stray => exact ih depth _
    | token kind fault =>
      have hfault : Piece.openAfter depth (.token kind fault) = Piece.openAfter depth (.token kind none) := by
        unfold Piece.openAfter
        split <;> simp_all
      show Token.openBehind (Piece.openAfter depth (.token kind none)) (placed _ ps) =
        Piece.openBehind (Piece.openAfter depth (.token kind fault)) ps
      rw [ih, hfault]

/-- Pieces without issues give their tokens, and those of the pieces behind them. -/
theorem ofPieces_append (h : (ofPieces p 0 ps).issues = []) (qs : List Piece) :
    ofPieces p 0 (ps ++ qs) = (ofPieces (p.after (ps.flatMap Piece.text)) 0 qs).after (placed p ps) [] := by
  rw [issues_eq_nil_iff] at h
  induction ps generalizing p with
  | nil => rfl
  | cons piece ps ih =>
    obtain ⟨content, text⟩ := piece
    rw [List.flatMap_cons, Position.after_append]
    cases content with
    | blank => exact ih (by simpa using h)
    | stray c => simp [Content.IsSound] at h
    | token kind fault =>
      obtain ⟨hsound, hrest⟩ : (Content.token kind fault).IsSound ∧
          ∀ c ∈ (ps.map Piece.content).filter (· ≠ .blank), c.IsSound := by simpa using h
      obtain ⟨_, hkind⟩ := hsound
      cases hkind
      rw [List.cons_append, ofPieces_token, if_neg (by decide)]
      exact congrArg (after [⟨kind, Span.between p (p.after text)⟩] []) (ih hrest)

/-- An issue starts on the line where the reading started, or further down. -/
theorem le_startLine_of_mem_issues {i : Issue} (h : i ∈ (ofPieces p found ps).issues) : p.line ≤ i.span.startLine := by
  induction ps generalizing p found with
  | nil => simp [ofPieces, ending] at h
  | cons piece ps ih =>
    obtain ⟨content, text⟩ := piece
    have hline : p.line ≤ (p.after text).line := by
      rw [Position.line_after]
      exact Nat.le_add_right ..
    cases content with
    | blank => exact Nat.le_trans hline (ih h)
    | stray c =>
      rcases List.mem_cons.1 h with rfl | h
      · exact Nat.le_refl _
      · exact Nat.le_trans hline (ih h)
    | token kind fault =>
      rw [ofPieces_token] at h
      rcases List.mem_append.1 h with h | h
      · obtain ⟨f, -, rfl⟩ := List.mem_map.1 h
        exact Nat.le_refl _
      · split at h
        · cases h
        · exact Nat.le_trans hline (ih h)

end Lexed

/-! ## Source lines -/

theorem splitLines_ne_nil (cs : List Char) : splitLines cs ≠ [] := by
  cases cs with
  | nil => simp [splitLines]
  | cons c cs =>
    unfold splitLines
    split
    · simp
    · split <;> simp

theorem splitLines_cons {c : Char} (hc : c ≠ '\n') (cs : List Char) :
    ∃ l ls, splitLines cs = l :: ls ∧ splitLines (c :: cs) = (c :: l) :: ls := by
  obtain ⟨l, ls, hlines⟩ := List.exists_cons_of_ne_nil (splitLines_ne_nil cs)
  exact ⟨l, ls, hlines, by simp [splitLines, hc, hlines]⟩

theorem splitLines_line (xs ds : List Char) : splitLines (xs ++ '\n' :: ds) = splitLines xs ++ splitLines ds := by
  induction xs with
  | nil => simp [splitLines]
  | cons x xs ih =>
    by_cases hx : x = '\n'
    · simp [splitLines, hx, ih]
    · obtain ⟨l, ls, hlines, hcons⟩ := splitLines_cons hx xs
      rw [List.cons_append, splitLines, if_neg hx, ih, hcons, hlines]
      rfl

theorem length_splitLines (cs : List Char) : (splitLines cs).length = cs.count '\n' + 1 := by
  induction cs with
  | nil => rfl
  | cons c cs ih =>
    by_cases hc : c = '\n'
    · simp [splitLines, hc, ih]
    · obtain ⟨l, ls, hlines, hcons⟩ := splitLines_cons hc cs
      rw [hcons, List.count_cons_of_ne hc, ← ih, hlines]
      rfl

/-- The lines of a text behind whole lines are its own, further down. -/
theorem SourceFile.lineFor_append {name s₁ s₂ : String} {xs : List Char} (h : s₁.toList = xs ++ ['\n']) {span : Span}
    (hs : 1 ≤ span.startLine) :
    lineFor ⟨name, s₁ ++ s₂⟩ (span.down (s₁.toList.count '\n')) = lineFor ⟨name, s₂⟩ span := by
  obtain ⟨line, col, endLine, endCol⟩ := span
  obtain ⟨n, rfl⟩ : ∃ n, line = n + 1 := Nat.exists_eq_add_one.2 hs
  have hcount : s₁.toList.count '\n' = (splitLines xs).length := by simp [h, length_splitLines]
  have hlines : lines ⟨name, s₁ ++ s₂⟩ = (splitLines xs).map trimReturns ++ lines ⟨name, s₂⟩ := by
    simp [lines, String.toList_append, h, splitLines_line]
  have hline : n + 1 + (splitLines xs).length = ((splitLines xs).map trimReturns).length + n + 1 := by
    rw [List.length_map]
    omega
  simp only [lineFor, Span.down, hcount, hline, line?, hlines]
  rw [List.getElem?_append_right (Nat.le_add_right ..), Nat.add_sub_cancel_left]

/-- What is stored and counted of issues further down, when each of them is on the same source line as before. -/
theorem Diagnostics.ofIssues_down {f g : SourceFile} {k : Nat} {issues : List Issue} (hn : g.name = f.name)
    (h : ∀ i ∈ issues, g.lineFor (i.span.down k) = f.lineFor i.span) :
    ofIssues g (issues.map (Issue.down k)) = (ofIssues f issues).down k := by
  have hlocate : (issues.map (Issue.down k)).map (Issue.locate g) =
      (issues.map (Issue.locate f)).map (Diagnostic.down k) := by
    rw [List.map_map, List.map_map]
    refine List.map_congr_left fun i hi => ?_
    simp only [Function.comp, Issue.locate, Issue.down, Diagnostic.down, hn, h i hi]
  rw [ofIssues_eq_ofHistory, ofIssues_eq_ofHistory, hlocate, ofHistory, List.length_map, ← List.map_take]
  rfl

namespace Lexed

/-- The pieces of a text without issues hold no open literal. -/
theorem not_isOpen_of_issues_eq_nil {p : Position} {ps : List Piece} (h : (ofPieces p 0 ps).issues = []) :
    ∀ piece ∈ ps, ∀ k, piece.content ≠ .token k (some .unterminatedString) := by
  intro piece hp k hk
  obtain ⟨k', hsound⟩ := issues_eq_nil_iff.1 h piece.content (by simpa [hk] using ⟨piece, hp, hk⟩)
  rw [hk] at hsound
  cases hsound

/-- The place behind a text that ends with its last line, as its pieces lead to it. -/
theorem after_pieces_line (xs : List Char) :
    Position.start.after ((Piece.pieces 0 (xs ++ ['\n'])).flatMap Piece.text) =
      Position.start.down ((xs ++ ['\n']).count '\n') := by
  rw [Piece.text_pieces, Position.after_line]
  rfl

variable {xs : List Char}

theorem tokens_ofChars_line (h : (ofChars (xs ++ ['\n'])).issues = []) :
    (ofChars (xs ++ ['\n'])).tokens =
      placed .start (Piece.pieces 0 (xs ++ ['\n'])) ++ [⟨.eof, .point ((xs ++ ['\n']).count '\n' + 1) 1⟩] := by
  have hself := ofPieces_append h []
  rw [List.append_nil, after_pieces_line] at hself
  rw [Nat.add_comm]
  exact congrArg Lexed.tokens hself

theorem ofChars_append (h : (ofChars (xs ++ ['\n'])).issues = [])
    (hopen : Token.openBehind 0 (ofChars (xs ++ ['\n'])).tokens = 0) (ds : List Char) :
    ofChars ((xs ++ ['\n']) ++ ds) =
      ((ofChars ds).down ((xs ++ ['\n']).count '\n')).after (placed .start (Piece.pieces 0 (xs ++ ['\n']))) [] := by
  have hzero : Piece.openBehind 0 (Piece.pieces 0 (xs ++ ['\n'])) = 0 := by
    rw [tokens_ofChars_line h, Token.openBehind, List.foldl_append] at hopen
    rw [← openBehind_placed 0 .start]
    exact hopen
  -- no bracket is open, so the text behind is cut as if it stood alone
  have hpieces := Piece.pieces_append (.inr ⟨xs, rfl⟩) (not_isOpen_of_issues_eq_nil h) ds
  rw [hzero] at hpieces
  rw [ofChars, hpieces, ofPieces_append h, after_pieces_line, ofPieces_down]
  rfl

/-- **Reading is incremental at the end of balanced lines.** When whole lines have no issue and their tokens leave no
bracket open, a text behind them adds its own tokens and its own diagnostics, with their source lines, further down by
the number of the lines. -/
theorem ofFile_append {name s₁ : String} (hend : s₁.toList.getLast? = some '\n')
    (hissues : (ofFile ⟨name, s₁⟩).issues = []) (hopen : Token.openBehind 0 (ofFile ⟨name, s₁⟩).tokens = 0)
    (s₂ : String) :
    ∃ ts, (ofFile ⟨name, s₁⟩).tokens = ts ++ [⟨.eof, .point (s₁.toList.count '\n' + 1) 1⟩] ∧
      (ofFile ⟨name, s₁ ++ s₂⟩).tokens = ts ++ (ofFile ⟨name, s₂⟩).tokens.map (Token.down (s₁.toList.count '\n')) ∧
      Diagnostics.ofIssues ⟨name, s₁ ++ s₂⟩ (ofFile ⟨name, s₁ ++ s₂⟩).issues =
        (Diagnostics.ofIssues ⟨name, s₂⟩ (ofFile ⟨name, s₂⟩).issues).down (s₁.toList.count '\n') := by
  obtain ⟨xs, hxs⟩ := List.getLast?_eq_some_iff.1 hend
  have hlexed : ofFile ⟨name, s₁ ++ s₂⟩ =
      ((ofFile ⟨name, s₂⟩).down (s₁.toList.count '\n')).after (placed .start (Piece.pieces 0 s₁.toList)) [] := by
    simp only [ofFile, hxs] at hissues hopen
    simp only [ofFile, String.toList_append, hxs]
    exact ofChars_append hissues hopen s₂.toList
  refine ⟨placed .start (Piece.pieces 0 s₁.toList), ?_, ?_, ?_⟩
  · simp only [ofFile, hxs] at hissues
    simp only [ofFile, hxs, tokens_ofChars_line hissues]
  · rw [hlexed]
    rfl
  · rw [hlexed]
    exact Diagnostics.ofIssues_down rfl fun i hi => SourceFile.lineFor_append hxs (le_startLine_of_mem_issues hi)

/-- Lines in brackets and in a literal, the last of which is joined to the one behind it. -/
def balancedLines : String := "x: Dict[str,\n  int] = f(\n)  # OK\n'''a\nb''' \\\n"

/-- A name that a literal without an end follows, and a stray character. -/
def laterText : String := "y 'z\n$"

theorem ofFile_append_sample :
    (ofFile ⟨"a.py", laterText⟩).issues.length = 2 ∧
      Diagnostics.ofIssues ⟨"a.py", balancedLines ++ laterText⟩ (ofFile ⟨"a.py", balancedLines ++ laterText⟩).issues =
        (Diagnostics.ofIssues ⟨"a.py", laterText⟩ (ofFile ⟨"a.py", laterText⟩).issues).down 5 := by
  have hend : balancedLines.toList.getLast? = some '\n' := by decide
  have hissues : (ofFile ⟨"a.py", balancedLines⟩).issues = [] := by decide +kernel
  have hopen : Token.openBehind 0 (ofFile ⟨"a.py", balancedLines⟩).tokens = 0 := by decide +kernel
  have hcount : balancedLines.toList.count '\n' = 5 := by decide
  obtain ⟨_, -, -, hlater⟩ := ofFile_append hend hissues hopen laterText
  rw [hcount] at hlater
  exact ⟨by decide +kernel, hlater⟩

end Lexed

end AnnotationChecker
