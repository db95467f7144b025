import AnnotationChecker.Proofs.Statement.Layout
import AnnotationChecker.Proofs.Statement.OnLine
/-!
# How many issues a line has

Reading a line reports at most one issue, which starts on the line, and goes on behind it (`Line.reported_read`). There
is one exception: an import of modules that cannot be read is not dropped, and what is left of its line is read as a
line of its own. So the issues of a module are on different lines unless a line starts with an import that is broken off
(`Parsed.issues_apart`), and such a line does have a second issue (`Parsed.reported_twice`).
-/

namespace AnnotationChecker

open AnnotationChecker.Parser

namespace Line

variable {ts us : List Token}

/-- An import that cannot be read and stops before the end of its line: more than a comment is left of it. -/
def BrokenOff (ts : List Token) : Prop :=
  (head ts).kind = .keyword .importWord ∧ ∃ i c, importParser (start ts) = .error i c ∧ hasInlineBody c.rest = true

/-- What reading a line reports: at most one issue, on the line, and the line is over behind it unless it is an import
that is broken off. -/
structure Reported (ts : List Token) (l : Line) : Prop where
  few : l.issues.length ≤ 1
  onLine : ∀ i ∈ l.issues, i.span.OnLine ts
  ended : Past ts (skipBlank l.rest) ∨ (BrokenOff ts ∧ SameLine ts l.rest)

theorem isOn_start (h : HasLineEnd ts) : (start ts).IsOn ts := ⟨.refl ts, h⟩

/-! ## Ending a line -/

theorem head_onLine (h : HasLineEnd ts) : (head ts).span.OnLine ts := by
  obtain ⟨t, us, rfl⟩ := h.exists_cons
  exact .head t us

theorem issues_close (expectation : Option Expectation) (h : HasLineEnd ts) :
    (close expectation ts).issues.length ≤ 1 ∧ ∀ i ∈ (close expectation ts).issues, i.span.OnLine ts := by
  unfold close
  simp only
  split
  · simp
  · split
    · simp
    · simpa using head_onLine h

theorem issues_finish (h : HasLineEnd ts) :
    (finish ts).issues.length ≤ 1 ∧ ∀ i ∈ (finish ts).issues, i.span.OnLine ts := by
  unfold finish
  split
  · next body hbody =>
    obtain ⟨t, us, rfl⟩ := h.exists_cons
    have ht : t.kind.isLineEnd = false := by rw [show t.kind = .comment body from hbody]; rfl
    obtain ⟨hfew, honLine⟩ := issues_close (Expectation.ofComment? body) (h.of_cons ht)
    exact ⟨hfew, fun i hi => (honLine i hi).of_sameLine (.cons ht (.refl us))⟩
  · exact issues_close _ h

theorem issues_close_of_endsHere (expectation : Option Expectation) (h : endsHere ts = true) :
    (close expectation ts).issues = [] := by
  unfold close
  rcases endsHere_iff.1 h with hk | hk <;> simp [hk]

theorem hasInlineBody_eq_false_iff :
    hasInlineBody ts = false ↔ endsHere ts = true ∨ ((head ts).kind.isComment = true ∧ endsHere (ts.drop 1) = true) := by
  unfold hasInlineBody
  cases endsHere ts <;> simp

/-- Where a line ends with a comment at most, there is nothing to report. -/
theorem issues_finish_of_end (h : hasInlineBody ts = false) : (finish ts).issues = [] := by
  unfold finish
  rcases hasInlineBody_eq_false_iff.1 h with hend | ⟨hcomment, hend⟩
  · split
    · next hbody =>
      rw [endsHere_iff, hbody] at hend
      simp at hend
    · exact issues_close_of_endsHere _ hend
  · split
    · exact issues_close_of_endsHere _ hend
    · next hbody =>
      unfold TokenKind.isComment at hcomment
      split at hcomment
      · next hk => exact absurd hk (hbody _)
      · cases hcomment

theorem past_skipBlank_of_endsHere (h : endsHere ts = true) : Past ts (skipBlank ts) := by
  rcases endsHere_iff.1 h with hk | hk
  · cases ts with
    | nil => cases hk
    | cons t ts =>
      rw [skipBlank, if_pos (.inl hk)]
      exact (Past.of_newline hk).skipBlank
  · exact (Past.of_eof hk).skipBlank

theorem past_skipBlank_of_end (h : hasInlineBody ts = false) : Past ts (skipBlank ts) := by
  rcases hasInlineBody_eq_false_iff.1 h with hend | ⟨hcomment, hend⟩
  · exact past_skipBlank_of_endsHere hend
  · cases ts with
    | nil => cases hcomment
    | cons t ts =>
      rw [skipBlank, if_pos (.inr ⟨hcomment, hend⟩)]
      exact (past_skipBlank_of_endsHere hend).cons t

theorem skipBlank_of_inline (h : hasInlineBody ts = true) : skipBlank ts = ts := by
  cases ts with
  | nil => cases h
  | cons t ts =>
    rw [skipBlank, if_neg]
    rintro (hnl | ⟨hcomment, hend⟩)
    · simp [hasInlineBody, endsHere, hnl, TokenKind.isLineEnd] at h
    · simp [hasInlineBody, hcomment, hend] at h

/-! ## Reading a line -/

section

variable (hend : HasLineEnd ts)

include hend

theorem reported_finish (h : SameLine ts us) (statement : Option Statement) :
    Reported ts ⟨statement, (finish us).issues, (finish us).rest⟩ := by
  obtain ⟨hfew, honLine⟩ := issues_finish (h.hasLineEnd hend)
  exact ⟨hfew, fun i hi => (honLine i hi).of_sameLine h, .inl ((Past.of_took h (past_finish us)).skipBlank)⟩

omit hend in
theorem reported_broken {i : Issue} {rest : List Token} (hi : i.span.OnLine ts) (h : Past ts rest) :
    Reported ts (broken i rest) :=
  ⟨Nat.le_refl 1, by simpa [broken] using hi, .inl h.skipBlank⟩

omit hend in
theorem reported_brokenStatement {i : Issue} {c : Cursor} (hi : i.span.OnLine ts) (h : c.IsOn ts) :
    Reported ts (brokenStatement i c) :=
  reported_broken hi ((Past.of_took h.sameLine (past_drop c.rest)).skipBlock)

theorem reported_ofStatement {p : Parser StatementKind} (hp : Whole false p) : Reported ts (ofStatement p ts) := by
  have hstays : StaysOn ts (spanned p) (start ts) := Whole.staysOn (.spanned hp) (isOn_start hend) nofun
  unfold ofStatement
  split
  · next hread => exact reported_finish hend (hstays.of_ok hread).sameLine _
  · next hread =>
    obtain ⟨hi, hc⟩ := hstays.of_error hread
    exact reported_brokenStatement hi hc

theorem reported_ofFunction (hts : InOrder ts) (hk : (head ts).kind = .keyword .defWord) : Reported ts (ofFunction ts) := by
  have hword : (head ts).kind.isLineEnd = false := by rw [hk]; rfl
  have hstays : StaysOn ts (spanned signatureParser) (start ts) :=
    Whole.staysOn (.spanned composed_signatureParser) (isOn_start hend) fun _ => hword
  have hsound : Sound StatementKind.Derives signatureParser (start ts) := sound_signatureParser (Nat.zero_le _) hk
  unfold ofFunction
  split
  · next kind span c hread =>
    have hc := hstays.of_ok hread
    split
    · exact reported_finish hend (hc.sameLine.trans (sameLine_skipInline c.rest)) _
    · next hinline =>
      -- the line of the signature has no issue, so the missing body is the only one
      have hnone : (finish c.rest).issues = [] := issues_finish_of_end (by simpa using hinline)
      obtain ⟨own, _, htakes, hd, -, rfl⟩ := hsound.spanned hread
      obtain ⟨t, us, rfl⟩ := List.exists_cons_of_ne_nil hd.ne_nil
      obtain rfl : ts = t :: us ++ c.rest := htakes.rest
      have hspan : (covering (t :: us)).OnLine (t :: us ++ c.rest) :=
        ⟨t, mem_firstLine_head t _, first_covering hts.of_append_left⟩
      have hover : Past (t :: us ++ c.rest) (skipBlock (finish c.rest).rest).2 :=
        ((past_finish c.rest).append (t :: us)).skipBlock
      refine ⟨?_, ?_, .inl hover.skipBlank⟩
      · simp only [withBlock, ended, hnone, List.nil_append]
        split <;> simp
      · simp only [withBlock, ended, hnone, List.nil_append]
        intro i hi
        split at hi
        · rw [List.mem_singleton.1 hi]
          exact hspan
        · cases hi
  · next hread =>
    obtain ⟨hi, hc⟩ := hstays.of_error hread
    exact reported_brokenStatement hi hc

theorem reported_ofImport (hk : (head ts).kind = .keyword .importWord) : Reported ts (ofImport ts) := by
  have hword : (head ts).kind.isLineEnd = false := by rw [hk]; rfl
  have hstays : StaysOn ts importParser (start ts) := Whole.staysOn composed_importParser (isOn_start hend) fun _ => hword
  unfold ofImport
  split
  · next hread => exact reported_finish hend (hstays.of_ok hread).sameLine _
  · next i c hread =>
    obtain ⟨hi, hc⟩ := hstays.of_error hread
    refine ⟨Nat.le_refl 1, by simpa [broken] using hi, ?_⟩
    cases hinline : hasInlineBody c.rest with
    | false => exact .inl (.of_took hc.sameLine (past_skipBlank_of_end hinline))
    | true => exact .inr ⟨⟨hk, i, c, hread, hinline⟩, hc.sameLine⟩

theorem reported_ofFrom (hk : (head ts).kind = .keyword .fromWord) : Reported ts (ofFrom ts) := by
  have hword : (head ts).kind.isLineEnd = false := by rw [hk]; rfl
  have hstays : StaysOn ts fromParser (start ts) := Whole.staysOn composed_fromParser (isOn_start hend) fun _ => hword
  unfold ofFrom
  split
  · next hread => exact reported_finish hend (hstays.of_ok hread).sameLine _
  · next hread =>
    obtain ⟨hi, hc⟩ := hstays.of_error hread
    exact reported_broken hi (.of_took hc.sameLine (past_drop _))

/-- **Reading a line reports at most one issue**, on the line, and the line is over behind it, unless it starts with an
`import` that is broken off. -/
theorem reported_read (hts : InOrder ts) : Reported ts (read ts) := by
  have hhead : (head ts).span.OnLine ts := head_onLine hend
  unfold read
  simp only
  split
  · exact reported_broken hhead (past_drop ts)
  · split
    next hk => exact reported_ofImport hend hk
    next hk => exact reported_ofFrom hend hk
    next hk =>
      obtain ⟨t, us, rfl⟩ := hend.exists_cons
      have ht : t.kind.isLineEnd = false := by rw [show t.kind = _ from hk]; rfl
      exact reported_finish hend (.cons ht (.refl us)) none
    next hk => exact reported_ofFunction hend hts hk
    next => exact reported_ofStatement hend composed_declarationParser
    next => exact reported_ofStatement hend composed_assignmentParser
    next => exact reported_ofStatement hend composed_callStatementParser
    next => exact reported_brokenStatement hhead (isOn_start hend)

end

/-! ## Logical lines -/

/-- How many newlines there are among some tokens. -/
def newlines (ts : List Token) : Nat := ts.countP fun t => t.kind = .newline

/-- The number of the logical line of a place: how many newlines there are before it. -/
def logicalLine (ts : List Token) (p : Position) : Nat := newlines (ts.filter fun t => t.span.first < p)

/-- The tokens from the start of a logical line on. -/
def fromLine : Nat → List Token → List Token
  | 0, ts => ts
  | _ + 1, [] => []
  | n + 1, t :: ts => if t.kind = .newline then fromLine n ts else fromLine (n + 1) ts

theorem newlines_append (ts us : List Token) : newlines (ts ++ us) = newlines ts + newlines us := List.countP_append

theorem newlines_cons (t : Token) (ts : List Token) :
    newlines (t :: ts) = newlines ts + if t.kind = .newline then 1 else 0 := by
  simp [newlines, List.countP_cons]

/-- No newline comes before a token of the line at the front. -/
theorem newlines_before_firstLine (h : InOrder ts) {t : Token} (ht : t ∈ firstLine ts) :
    newlines (ts.filter fun u => u.span.first < t.span.first) = 0 := by
  induction ts with
  | nil => cases ht
  | cons u us ih =>
    have hhead : (u :: us).filter (fun v => v.span.first < u.span.first) = [] :=
      List.filter_eq_nil_iff.2 fun v hv => by simpa using h.first_le v hv
    rw [firstLine] at ht
    split at ht
    · obtain rfl := List.mem_singleton.1 ht
      rw [hhead]
      rfl
    · next hu =>
      rcases List.mem_cons.1 ht with rfl | ht
      · rw [hhead]
        rfl
      · have hrest := ih h.tail ht
        have hnl : u.kind ≠ .newline := fun hk => hu (by rw [hk]; rfl)
        rw [List.filter_cons]
        split
        · rw [newlines_cons, hrest, if_neg hnl]
        · exact hrest

/-- What starts on the line at the front of some tokens is as many lines down as there are newlines before these. -/
theorem logicalLine_of_onLine {s : Span} (h : InOrder (us ++ ts)) (hs : s.OnLine ts) :
    logicalLine (us ++ ts) s.first = newlines us := by
  obtain ⟨t, ht, hfirst⟩ := hs
  have hfront : us.filter (fun u => u.span.first < t.span.first) = us := by
    refine List.filter_eq_self.2 fun u hu => ?_
    obtain ⟨-, -, hacross⟩ := List.pairwise_append.1 h.increasing
    simpa using hacross u hu t (firstLine_subset ts ht)
  rw [logicalLine, hfirst, List.filter_append, newlines_append, hfront, newlines_before_firstLine h.of_append_right ht]
  rfl

/-- Behind a newline a line starts. -/
theorem fromLine_append (h : ∀ t ∈ us.getLast?, t.kind = .newline) : fromLine (newlines us) (us ++ ts) = ts := by
  induction us with
  | nil => simp [newlines, fromLine]
  | cons t us ih =>
    cases us with
    | nil =>
      have ht : t.kind = .newline := h t rfl
      simp [newlines, fromLine, ht]
    | cons u us =>
      have hrest := ih (by simpa [List.getLast?_cons_cons] using h)
      by_cases ht : t.kind = .newline
      · rw [newlines_cons, if_pos ht, List.cons_append, fromLine, if_pos ht, hrest]
      · -- the last token is a newline, so there is one among those behind the first
        have hpos : 0 < newlines (u :: us) := by
          refine List.countP_pos_iff.2 ⟨(u :: us).getLast (by simp), List.getLast_mem _, ?_⟩
          simpa using h _ (by rw [List.getLast?_cons_cons]; exact List.getLast?_eq_some_getLast _)
        obtain ⟨n, hn⟩ : ∃ n, newlines (u :: us) = n + 1 := ⟨newlines (u :: us) - 1, by omega⟩
        rw [hn] at hrest
        rw [newlines_cons, if_neg ht, hn, List.cons_append, fromLine, if_neg ht, hrest]

end Line

/-! ## Modules -/

namespace Parsed

open AnnotationChecker.Line

variable {all us ts : List Token} {room found : Nat}

/-- Reading stands at the start of a line, or within a line that starts with an import that is broken off. -/
def OnCourse (all us : List Token) : Prop :=
  (∀ t ∈ us.getLast?, t.kind = .newline) ∨ BrokenOff (fromLine (newlines us) all)

/-- One issue comes before another one: on an earlier line, or on the same one when that starts with an import that is
broken off. -/
def Apart (all : List Token) (i j : Issue) : Prop :=
  logicalLine all i.span.first < logicalLine all j.span.first ∨
    (logicalLine all i.span.first = logicalLine all j.span.first ∧
      BrokenOff (fromLine (logicalLine all i.span.first) all))

/-- Behind a line, reading stands on a later line, or on the same one when an import is broken off there; or nothing is
left to be read. -/
def GoesOn (us ts rest : List Token) : Prop :=
  ∃ taken, ts = taken ++ rest ∧ ((head rest).kind = .eof ∨ (OnCourse (us ++ ts) (us ++ taken) ∧
    (newlines (us ++ taken) = newlines us → BrokenOff (fromLine (newlines us) (us ++ ts)))))

/-- Behind a newline a later line starts. -/
theorem goesOn_of_past {rest : List Token} (us : List Token) (h : Past ts rest) : GoesOn us ts rest := by
  obtain ⟨taken, htaken, ⟨t, hlast, hnl⟩ | heof⟩ := h
  · refine ⟨taken, htaken, .inr ⟨.inl ?_, fun hsame => ?_⟩⟩
    · intro u hu
      rw [List.getLast?_append, Option.mem_def.1 hlast] at hu
      obtain rfl : t = u := by simpa using hu
      exact hnl
    · have hpos : 0 < newlines taken :=
        List.countP_pos_iff.2 ⟨t, List.mem_of_getLast? hlast, by simpa using hnl⟩
      rw [newlines_append] at hsame
      omega
  · exact ⟨taken, htaken, .inl heof⟩

theorem newlines_eq_zero {taken : List Token} (h : ∀ t ∈ taken, t.kind.isLineEnd = false) : newlines taken = 0 := by
  refine List.countP_eq_zero.2 fun t ht hnl => ?_
  have hk := h t ht
  rw [of_decide_eq_true hnl] at hk
  cases hk

theorem goesOn_of_reported {l : Line} (hcourse : OnCourse (us ++ ts) us) (hreported : Reported ts l) :
    GoesOn us ts (skipBlank l.rest) := by
  rcases hreported.ended with hended | ⟨hbroken, hsame⟩
  · exact goesOn_of_past us hended
  · rcases skipBlank_eq_or_past l.rest with hrest | hrest
    · -- the rest of the line is read as a line
      have hline : BrokenOff (fromLine (newlines us) (us ++ ts)) := by
        rcases hcourse with hstart | hbroken'
        · rwa [fromLine_append hstart]
        · exact hbroken'
      obtain ⟨taken, htaken, hall⟩ := hsame
      have hcount : newlines (us ++ taken) = newlines us := by
        rw [newlines_append, newlines_eq_zero hall, Nat.add_zero]
      refine ⟨taken, by rw [hrest]; exact htaken, .inr ⟨.inr ?_, fun _ => hline⟩⟩
      rwa [hcount]
    · exact goesOn_of_past us (.of_took hsame hrest)

/-- The issues of the lines that are left are on these lines, one behind the other. -/
theorem apart_ofLines (room found : Nat) (us ts : List Token) (hall : InOrder (us ++ skipBlank ts))
    (heof : HasEof (skipBlank ts)) (hcourse : OnCourse (us ++ skipBlank ts) us) :
    (∀ i ∈ (ofLines room found ts).issues, newlines us ≤ logicalLine (us ++ skipBlank ts) i.span.first) ∧
      (ofLines room found ts).issues.Pairwise (Apart (us ++ skipBlank ts)) := by
  induction room generalizing found us ts with
  | zero => simp [ofLines]
  | succ room ih =>
    by_cases h : (head (skipBlank ts)).kind = .eof ∨ maxDiagnostics ≤ found
    · rw [ofLines_of_stop h]
      simp
    · rw [ofLines_succ h, issues_after]
      generalize skipBlank ts = line at *
      have hreported := reported_read heof.hasLineEnd hall.of_append_right
      have hadvances := advances_read (not_or.1 h).1 heof.hasLineEnd
      obtain ⟨taken, htaken, hbehind⟩ := goesOn_of_reported hcourse hreported
      have hhere : ∀ i ∈ (read line).issues, logicalLine (us ++ line) i.span.first = newlines us :=
        fun i hi => logicalLine_of_onLine hall (hreported.onLine i hi)
      have hfew : (read line).issues.Pairwise (Apart (us ++ line)) := by
        rcases hissues : (read line).issues with _ | ⟨i, _ | ⟨j, more⟩⟩
        · exact .nil
        · exact List.pairwise_singleton _ _
        · have hlength := hreported.few
          rw [hissues] at hlength
          simp at hlength
      rcases hbehind with hend | ⟨hcourse', hline⟩
      · -- nothing is read behind this line
        rw [ofLines_of_stop (.inl hend)]
        simpa using ⟨fun i hi => (hhere i hi).ge, hfew⟩
      · have hsplit : us ++ line = (us ++ taken) ++ skipBlank (read line).rest := by
          rw [List.append_assoc, ← htaken]
        have hrest : HasEof (skipBlank (read line).rest) :=
          (sameFile_skipBlank _).hasEof (hadvances.sameFile.hasEof heof)
        obtain ⟨hlater, hordered⟩ :=
          ih (found + (read line).issues.length) _ _ (hsplit ▸ hall) hrest (hsplit ▸ hcourse')
        rw [← hsplit] at hlater hordered
        have hmono : newlines us ≤ newlines (us ++ taken) := by rw [newlines_append]; exact Nat.le_add_right _ _
        refine ⟨List.forall_mem_append.2 ⟨fun i hi => (hhere i hi).ge, fun j hj => hmono.trans (hlater j hj)⟩,
          List.pairwise_append.2 ⟨hfew, hordered, fun i hi j hj => ?_⟩⟩
        show _ < _ ∨ _
        rw [hhere i hi]
        rcases (hmono.trans (hlater j hj)).lt_or_eq with hlt | heq
        · exact .inl hlt
        · have hsame : newlines (us ++ taken) = newlines us := Nat.le_antisymm ((hlater j hj).trans heq.ge) hmono
          exact .inr ⟨heq, hline hsame⟩

/-- **A line has one issue, unless an import is broken off on it.** The issues of a file with its statements are in the
order of the text, and two of them are on the same logical line only if that line starts with an import of modules that
cannot be read and stops before the end of the line. -/
theorem issues_apart (f : SourceFile) : (ofFile f).issues.Pairwise (Apart (Lexed.ofFile f).tokens) := by
  have heof : HasEof (Lexed.ofFile f).tokens := Lexed.hasEof_ofPieces _ _ _
  have hall := Lexed.inOrder_ofFile f
  unfold ofFile ofTokens
  generalize (Lexed.ofFile f).tokens = ts at *
  have hrest : HasEof (skipBlank ts) := (sameFile_skipBlank ts).hasEof heof
  rcases skipBlank_eq_or_past ts with hblank | ⟨blank, hblank, ⟨t, hlast, hnl⟩ | hend⟩
  · have hordered := apart_ofLines (ts.length + 1) 0 [] ts (by rwa [hblank]) hrest (.inl (by simp))
    rw [List.nil_append, hblank] at hordered
    exact hordered.2
  · have hcourse : OnCourse (blank ++ skipBlank ts) blank := by
      refine .inl fun u hu => ?_
      rw [Option.mem_def.1 hlast] at hu
      cases hu
      exact hnl
    have hordered := apart_ofLines (ts.length + 1) 0 blank ts (hblank ▸ hall) hrest hcourse
    rw [← hblank] at hordered
    exact hordered.2
  · rw [ofLines_of_stop (.inl hend)]
    exact .nil

/-- A module in which every line is bad: an import without a name, which is over there, a function without its
parentheses, with a body, and an assignment without a value. -/
example : (ofFile ⟨"a.py", "import\ndef f\n  pass\nx = # ERR"⟩).issues.map
    (fun i => logicalLine (Lexed.ofFile ⟨"a.py", "import\ndef f\n  pass\nx = # ERR"⟩).tokens i.span.first) = [0, 1, 3] := by
  decide +kernel

/-- **An import that is broken off is reported twice.** The token at which it stops is blamed for the import, and then,
unless it stands in the first column, for its indentation. -/
theorem reported_twice {i : Issue} {c : Cursor} (hcol : (head ts).span.startCol ≤ 1)
    (hk : (head ts).kind = .keyword .importWord) (hread : importParser (start ts) = .error i c)
    (hrest : hasInlineBody c.rest = true) (hbehind : 1 < (head c.rest).span.startCol) (hfound : found + 1 < maxDiagnostics) :
    ∃ more, (ofLines (room + 2) found ts).issues =
      i :: ⟨.unexpectedIndent, "unexpected indent", (head c.rest).span⟩ :: more := by
  have hfront : skipBlank ts = ts := by
    refine skipBlank_of_inline ?_
    simp [hasInlineBody, endsHere, hk, TokenKind.isLineEnd, TokenKind.isComment]
  have himport : Line.read ts = broken i c.rest := by
    have hline : Line.read ts = ofImport ts := by
      unfold Line.read
      simp only [if_neg (Nat.not_lt.2 hcol), hk]
    rw [hline, ofImport, show importParser ⟨ts, Span.point 1 1, 0⟩ = .error i c from hread]
  have hgo : ¬ ((head (skipBlank ts)).kind = .eof ∨ maxDiagnostics ≤ found) := by
    rw [hfront, hk]
    simp
    omega
  rw [ofLines_succ hgo, hfront, himport, issues_after]
  have hmid : skipBlank c.rest = c.rest := skipBlank_of_inline hrest
  have hindent : Line.read c.rest = broken ⟨.unexpectedIndent, "unexpected indent", (head c.rest).span⟩ (drop c.rest) := by
    unfold Line.read
    exact if_pos hbehind
  have hmore : ¬ ((head (skipBlank c.rest)).kind = .eof ∨ maxDiagnostics ≤ found + 1) := by
    rw [hmid, not_or]
    refine ⟨fun heof => ?_, by omega⟩
    simp [hasInlineBody, endsHere, heof, TokenKind.isLineEnd] at hrest
  show ∃ more, i :: (ofLines (room + 1) (found + 1) c.rest).issues = _
  rw [ofLines_succ hmore, hmid, hindent, issues_after]
  exact ⟨_, rfl⟩

/-- What stands behind an import cannot be a name, and it is reported as such, and as an indented line. -/
theorem import_reported_twice :
    (ofFile ⟨"t.py", "import 1\n"⟩).issues.length < maxDiagnostics ∧
      ¬ ((ofFile ⟨"t.py", "import 1\n"⟩).issues.map fun i =>
        logicalLine (Lexed.ofFile ⟨"t.py", "import 1\n"⟩).tokens i.span.first).Nodup := by
  decide +kernel

end Parsed

end AnnotationChecker
