import AnnotationChecker.Proofs.Diagnostic
import AnnotationChecker.Proofs.Statement.Level
import AnnotationChecker.Proofs.Statement.Lines
/-!
# A bad line does not affect the lines after it

What is read from whole lines with further lines behind them is what is read from each of the two on its own
(`Parsed.ofLines_append`, by induction over the lines, with `Line.read_append` as the step). The issues of the
first part only decide whether the second part is read at all, so below the limit for issues the reading of a module
is compositional: `Parsed.ofTokens_append`. Every line is read from level zero; that no line leaves a level behind is
`Parser.Whole.depth_place`.
-/

namespace AnnotationChecker

/-- The end of the file is somewhere among the tokens. -/
def HasEof (ts : List Token) : Prop := ∃ t ∈ ts, t.kind = .eof

theorem HasEof.hasLineEnd {ts : List Token} (h : HasEof ts) : HasLineEnd ts := by
  obtain ⟨t, ht, hk⟩ := h
  exact ⟨t, ht, by rw [hk]; rfl⟩

theorem SameFile.hasEof {ts rest : List Token} (h : SameFile ts rest) (he : HasEof ts) : HasEof rest := by
  obtain ⟨t, ht, hk⟩ := he
  exact ⟨t, h.mem ht (by simp [hk]), hk⟩

namespace Parsed

open AnnotationChecker.Line

/-- What was read from one part, and then what was read from the next one. -/
instance : Append Parsed where
  append p q := ⟨p.statements ++ q.statements, p.issues ++ q.issues⟩

@[simp] theorem statements_append (p q : Parsed) : (p ++ q).statements = p.statements ++ q.statements := rfl

@[simp] theorem issues_append (p q : Parsed) : (p ++ q).issues = p.issues ++ q.issues := rfl

@[simp] theorem nil_append (p : Parsed) : (⟨[], []⟩ : Parsed) ++ p = p := rfl

@[simp] theorem append_nil (p : Parsed) : p ++ (⟨[], []⟩ : Parsed) = p := by
  show (⟨p.statements ++ [], p.issues ++ []⟩ : Parsed) = p
  rw [List.append_nil, List.append_nil]

@[simp] theorem issues_after (l : Line) (p : Parsed) : (p.after l).issues = l.issues ++ p.issues := rfl

theorem after_append (l : Line) (p q : Parsed) : (p ++ q).after l = p.after l ++ q := by
  show (⟨_, _⟩ : Parsed) = ⟨_, _⟩
  simp [after]

variable {ts x y : List Token} {n m k found : Nat}

/-! ## One line after the other -/

/-- Nothing is read at the end of the file, or once there are too many issues. -/
theorem ofLines_of_stop (h : (head (skipBlank ts)).kind = .eof ∨ maxDiagnostics ≤ found) :
    ofLines n found ts = ⟨[], []⟩ := by
  cases n with
  | zero => rfl
  | succ n => exact if_pos h

theorem ofLines_succ (h : ¬ ((head (skipBlank ts)).kind = .eof ∨ maxDiagnostics ≤ found)) :
    ofLines (n + 1) found ts =
      (ofLines n (found + (read (skipBlank ts)).issues.length) (read (skipBlank ts)).rest).after (read (skipBlank ts)) :=
  if_neg h

/-- Every statement and every issue is read on one of the lines that are left. -/
theorem exists_line (hts : HasEof ts) :
    (∀ s ∈ (ofLines n found ts).statements, ∃ us, us <:+ ts ∧ HasEof us ∧ s ∈ (read us).statement) ∧
      ∀ i ∈ (ofLines n found ts).issues, ∃ us, us <:+ ts ∧ HasEof us ∧ i ∈ (read us).issues := by
  induction n generalizing found ts with
  | zero => simp [ofLines]
  | succ n ih =>
    by_cases h : (head (skipBlank ts)).kind = .eof ∨ maxDiagnostics ≤ found
    · rw [ofLines_of_stop h]
      simp
    · have hblank : HasEof (skipBlank ts) := (sameFile_skipBlank ts).hasEof hts
      have hread := (advances_read (not_or.1 h).1 hblank.hasLineEnd).sameFile
      have hline : skipBlank ts <:+ ts := (sameFile_skipBlank ts).suffix
      have hrest : (read (skipBlank ts)).rest <:+ ts := hread.suffix.trans hline
      obtain ⟨hstatements, hissues⟩ := @ih _ (found + (read (skipBlank ts)).issues.length) (hread.hasEof hblank)
      rw [ofLines_succ h]
      constructor
      · intro s hs
        rcases List.mem_append.1 hs with hs | hs
        · exact ⟨_, hline, hblank, Option.mem_toList.1 hs⟩
        · obtain ⟨us, hus, hlater⟩ := hstatements s hs
          exact ⟨us, hus.trans hrest, hlater⟩
      · intro i hi
        rcases List.mem_append.1 hi with hi | hi
        · exact ⟨_, hline, hblank, hi⟩
        · obtain ⟨us, hus, hlater⟩ := hissues i hi
          exact ⟨us, hus.trans hrest, hlater⟩

/-- A bound above the number of tokens is never met. -/
theorem ofLines_congr_room (hts : HasEof ts) (hn : ts.length < n) (hm : ts.length < m) :
    ofLines n found ts = ofLines m found ts := by
  induction n generalizing m found ts with
  | zero => exact absurd hn (Nat.not_lt_zero _)
  | succ n ih =>
    obtain ⟨m, rfl⟩ : ∃ k, m = k + 1 := ⟨m - 1, by omega⟩
    by_cases h : (head (skipBlank ts)).kind = .eof ∨ maxDiagnostics ≤ found
    · rw [ofLines_of_stop h, ofLines_of_stop h]
    · have hblank : HasEof (skipBlank ts) := (sameFile_skipBlank ts).hasEof hts
      have hread := advances_read (not_or.1 h).1 hblank.hasLineEnd
      have hlt := Nat.lt_of_lt_of_le hread.length_lt (sameFile_skipBlank ts).length_le
      have hrest : HasEof (read (skipBlank ts)).rest := hread.sameFile.hasEof hblank
      rw [ofLines_succ h, ofLines_succ h, ih (m := m) hrest (by omega) (by omega)]

/-- How many issues there were before makes no difference, unless the limit is reached. -/
theorem ofLines_congr_found {a b : Nat} (hab : a ≤ b) (hb : b + (ofLines n a ts).issues.length < maxDiagnostics) :
    ofLines n b ts = ofLines n a ts := by
  induction n generalizing a b ts with
  | zero => rfl
  | succ n ih =>
    by_cases heof : (head (skipBlank ts)).kind = .eof
    · rw [ofLines_of_stop (.inl heof), ofLines_of_stop (.inl heof)]
    · have ha : ¬ ((head (skipBlank ts)).kind = .eof ∨ maxDiagnostics ≤ a) := by rw [not_or]; exact ⟨heof, by omega⟩
      have hb' : ¬ ((head (skipBlank ts)).kind = .eof ∨ maxDiagnostics ≤ b) := by rw [not_or]; exact ⟨heof, by omega⟩
      rw [ofLines_succ ha, issues_after, List.length_append] at hb
      rw [ofLines_succ ha, ofLines_succ hb', ih (Nat.add_le_add_right hab _) (by omega)]

theorem head_skipBlank_ne_newline (ts : List Token) : (head (skipBlank ts)).kind ≠ .newline := by
  induction ts with
  | nil => exact TokenKind.noConfusion
  | cons t ts ih =>
    rw [skipBlank]
    split
    · exact ih
    · next h => exact (not_or.1 h).1

/-- **A run over whole lines and what follows them.** The second part is read as if it stood alone, but for the
issues that were found before. -/
theorem ofLines_append (hx : WholeLines x) (hy : Opens y) (heof : HasEof y) (hk : x.length < k) (hm : y.length < m)
    (hn : x.length + y.length < n) :
    ofLines n found (x ++ y) = ofLines k found x ++ ofLines m (found + (ofLines k found x).issues.length) y := by
  induction k generalizing n found x with
  | zero => exact absurd hk (Nat.not_lt_zero _)
  | succ k ih =>
    obtain ⟨n, rfl⟩ : ∃ j, n = j + 1 := ⟨n - 1, by omega⟩
    have hblank : skipBlank (x ++ y) = skipBlank x ++ y := skipBlank_append hx hy
    have hwhole : WholeLines (skipBlank x) := hx.of_took (sameFile_skipBlank x)
    by_cases hne : skipBlank x = []
    · -- nothing but blank lines in front
      have hstop : ofLines (k + 1) found x = ⟨[], []⟩ := ofLines_of_stop (.inl (by rw [hne]; rfl))
      have hfront : ofLines (n + 1) found (x ++ y) = ofLines (n + 1) found y := by
        rw [ofLines, ofLines, hblank, hne, List.nil_append, skipBlank_of_opens hy]
      rw [hstop, nil_append, hfront]
      exact ofLines_congr_room heof (by omega) hm
    · have hhead : head (skipBlank x ++ y) = head (skipBlank x) := head_append hne
      by_cases hfull : maxDiagnostics ≤ found
      · have hstop : ∀ j us, ofLines j found us = ⟨[], []⟩ := fun _ _ => ofLines_of_stop (.inr hfull)
        rw [hstop, hstop, nil_append]
        exact (hstop _ _).symm
      · have hhas : HasLineEnd (skipBlank x) := hwhole.hasLineEnd hne
        have hnot : (head (skipBlank x)).kind ≠ .eof := hwhole.head_ne_eof hne
        have hread := read_append hwhole hne hy (head_skipBlank_ne_newline x)
        have hadvances := advances_read hnot hhas
        have hlt := Nat.lt_of_lt_of_le hadvances.length_lt (sameFile_skipBlank x).length_le
        have hgo : ¬ ((head (skipBlank x)).kind = .eof ∨ maxDiagnostics ≤ found) := not_or.2 ⟨hnot, hfull⟩
        rw [ofLines_succ (by rw [hblank, hhead]; exact hgo), ofLines_succ hgo, hblank, hread]
        simp only [Line.extend]
        rw [ih (hwhole.of_took hadvances.sameFile) (by omega) (by omega), issues_after, List.length_append,
          ← Nat.add_assoc]
        exact after_append _ _ _

/-! ## Modules -/

/-- Whole lines at the end of a file. -/
theorem ofTokens_whole {e : Token} (hx : WholeLines x) (he : e.kind = .eof) :
    ofTokens (x ++ [e]) = ofLines (x.length + 1) 0 x := by
  have hend : Opens [e] := ⟨by simp [he], by simp [he, TokenKind.isComment], .inl he⟩
  have hnothing : ∀ n found, ofLines n found [e] = ⟨[], []⟩ :=
    fun _ _ => ofLines_of_stop (.inl (by rw [skipBlank_of_opens hend]; exact he))
  rw [ofTokens, ofLines_append hx hend ⟨e, by simp, he⟩ (Nat.lt_succ_self _) (Nat.lt_succ_self _) (by simp), hnothing,
    append_nil]

/-- **Recovery is compositional.** Whole lines, however broken, with further lines behind them: the statements are
those of the two parts, and so are the issues, as long as the limit for issues is not reached. -/
theorem ofTokens_append {ts us : List Token} {e : Token} (hts : WholeLines ts) (he : e.kind = .eof) (hopens : Opens us)
    (heof : HasEof us)
    (hfew : (ofTokens (ts ++ [e])).issues.length + (ofTokens us).issues.length < maxDiagnostics) :
    (ofTokens (ts ++ us)).statements = (ofTokens (ts ++ [e])).statements ++ (ofTokens us).statements ∧
      (ofTokens (ts ++ us)).issues = (ofTokens (ts ++ [e])).issues ++ (ofTokens us).issues ∧
      ∀ f, Diagnostics.ofIssues f (ofTokens (ts ++ us)).issues =
        ⟨(Diagnostics.ofIssues f (ofTokens (ts ++ [e])).issues).stored ++
            (Diagnostics.ofIssues f (ofTokens us).issues).stored,
          (Diagnostics.ofIssues f (ofTokens (ts ++ [e])).issues).total +
            (Diagnostics.ofIssues f (ofTokens us).issues).total⟩ := by
  have hsum : ofTokens (ts ++ us) = ofTokens (ts ++ [e]) ++ ofTokens us := by
    have hsecond : ofLines (us.length + 1) (0 + (ofTokens (ts ++ [e])).issues.length) us = ofTokens us :=
      ofLines_congr_found (Nat.zero_le _) (by rw [Nat.zero_add]; exact hfew)
    rw [← hsecond, ofTokens_whole hts he]
    exact ofLines_append hts hopens heof (Nat.lt_succ_self _) (Nat.lt_succ_self _) (by simp)
  refine ⟨by rw [hsum, statements_append], by rw [hsum, issues_append], fun f => ?_⟩
  rw [hsum, issues_append, Diagnostics.ofIssues_of_le f (by rw [List.length_append]; omega),
    Diagnostics.ofIssues_of_le f (by omega), Diagnostics.ofIssues_of_le f (by omega), List.map_append,
    List.length_append]

/-- A function without parentheses, with its body, and an import of a number. -/
def badLines : List Token :=
  [⟨.keyword .defWord, .point 1 1⟩, ⟨.identifier "f", .point 1 5⟩, ⟨.newline, .point 1 6⟩,
    ⟨.keyword .passWord, .point 2 3⟩, ⟨.newline, .point 2 7⟩,
    ⟨.keyword .importWord, .point 3 1⟩, ⟨.int 1, .point 3 8⟩, ⟨.newline, .point 3 9⟩]

/-- A declaration, and an assignment without its value. -/
def laterLines : List Token :=
  [⟨.identifier "x", .point 4 1⟩, ⟨.mark .colon, .point 4 2⟩, ⟨.identifier "int", .point 4 4⟩, ⟨.newline, .point 4 7⟩,
    ⟨.identifier "x", .point 5 1⟩, ⟨.mark .equals, .point 5 3⟩, ⟨.newline, .point 5 4⟩, ⟨.eof, .point 6 1⟩]

theorem ofTokens_append_sample :
    (ofTokens (badLines ++ [⟨.eof, .point 4 1⟩])).issues.length = 3 ∧ (ofTokens laterLines).issues.length = 1 ∧
      (ofTokens (badLines ++ laterLines)).issues =
        (ofTokens (badLines ++ [⟨.eof, .point 4 1⟩])).issues ++ (ofTokens laterLines).issues := by
  have hbad : (ofTokens (badLines ++ [⟨.eof, .point 4 1⟩])).issues.length = 3 := by decide +kernel
  have hgood : (ofTokens laterLines).issues.length = 1 := by decide +kernel
  have hwhole : WholeLines badLines := ⟨by decide, by simp [badLines]⟩
  have hopens : Opens laterLines := ⟨by decide, by decide, by decide⟩
  have heof : HasEof laterLines := ⟨⟨.eof, .point 6 1⟩, by decide, rfl⟩
  exact ⟨hbad, hgood, (ofTokens_append hwhole rfl hopens heof (by rw [hbad, hgood]; decide)).2.1⟩

end Parsed

end AnnotationChecker
